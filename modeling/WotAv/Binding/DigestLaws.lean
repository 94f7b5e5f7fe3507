import Mathlib.Data.List.Nodup
import WotAv.Binding.DigestGrammar
import WotAv.Lib.Separators

/-!
# What Digest headers say

The challenge that is selected is one that the headers hold, and the strongest
that the policy permits; and an authorization, read by the same grammar, says
what it was made of. Nothing in a quoted value is taken for anything else.
-/

namespace WotAv.Binding

open WotAv.Lib
open WotAv.Media (isSpace isControlCharacter)

-- Selection

theorem forall₂_mem {α β : Type} {R : α → β → Prop} {l : List α} {l' : List β} (h : List.Forall₂ R l l') :
    (∀ a ∈ l, ∃ b ∈ l', R a b) ∧ ∀ b ∈ l', ∃ a ∈ l, R a b := by
  induction h with
  | nil => exact ⟨nofun, nofun⟩
  | cons hab _ ih =>
    constructor
    · rintro a (_ | ⟨_, ha⟩)
      · exact ⟨_, List.mem_cons_self, hab⟩
      · obtain ⟨b, hb, h⟩ := ih.1 a ha
        exact ⟨b, List.mem_cons_of_mem _ hb, h⟩
    · rintro b (_ | ⟨_, hb⟩)
      · exact ⟨_, List.mem_cons_self, hab⟩
      · obtain ⟨a, ha, h⟩ := ih.2 b hb
        exact ⟨a, List.mem_cons_of_mem _ ha, h⟩

theorem challenges_iff {headers : List String} (h : challenges headers = .ok offered) (values : Parameters) :
    values ∈ offered ↔ ∃ header ∈ headers, Holds header values := by
  unfold challenges at h
  split at h
  · cases h
  · obtain ⟨each, heach, h⟩ := except_bind_ok h
    obtain rfl := Except.ok.inj h
    obtain ⟨hheader, hlist⟩ := forall₂_mem (except_mapM_ok heach)
    rw [List.mem_flatten]
    constructor
    · rintro ⟨list, hl, hv⟩
      obtain ⟨header, hh, hc⟩ := hlist list hl
      exact ⟨header, hh, (challengesOf_iff hc values).mp hv⟩
    · rintro ⟨header, hh, hv⟩
      obtain ⟨list, hl, hc⟩ := hheader header hh
      exact ⟨list, hl, (challengesOf_iff hc values).mpr hv⟩

theorem supported_permitted (h : supported policy values = .ok (some c)) :
    c.algorithm ∈ policy.algorithms ∧ ∀ qop ∈ c.qop, qop ∈ policy.qops := by
  unfold supported at h
  split at h
  · cases h
  · rename_i algorithm halgorithm
    obtain ⟨-, hpermitted⟩ := Option.filter_eq_some_iff.mp halgorithm
    split at h
    · split at h
      · cases h
      · dsimp only at h
        split at h
        · cases h
        · split at h
          · cases h
          · split at h
            · cases h
            · obtain rfl := Option.some.inj (Except.ok.inj h)
              exact ⟨List.contains_iff_mem.mp hpermitted, fun qop hq => List.mem_of_find?_eq_some hq⟩
    · cases h

theorem strongest_some (h : strongest offered = some c) :
    c ∈ offered ∧ ∀ other ∈ offered, other.algorithm.strength ≤ c.algorithm.strength := by
  unfold strongest at h
  have hsorted := @List.pairwise_mergeSort DigestChallenge (fun a b => b.algorithm.strength ≤ a.algorithm.strength)
    (fun a b c hab hbc => by simp only [decide_eq_true_eq] at *; omega)
    (fun a b => by simp only [Bool.or_eq_true, decide_eq_true_eq]; omega) offered
  have hmem (other : DigestChallenge) :
      other ∈ offered.mergeSort (fun a b => b.algorithm.strength ≤ a.algorithm.strength) ↔ other ∈ offered :=
    List.mem_mergeSort
  generalize offered.mergeSort (fun a b => b.algorithm.strength ≤ a.algorithm.strength) = sorted at h hsorted hmem
  cases sorted with
  | nil => cases h
  | cons first rest =>
    obtain rfl := Option.some.inj h
    refine ⟨(hmem first).mp List.mem_cons_self, fun other ho => ?_⟩
    rcases List.mem_cons.mp ((hmem other).mpr ho) with rfl | hr
    · exact le_rfl
    · simpa using (List.pairwise_cons.mp hsorted).1 other hr

/-- What `selectDigestChallenge` may return. -/
structure Selected (headers : List String) (policy : DigestPolicy) (c : DigestChallenge) : Prop where
  held : ∃ header ∈ headers, ∃ values, Holds header values ∧ supported policy values = .ok (some c)
  algorithm : c.algorithm ∈ policy.algorithms
  qop : ∀ qop ∈ c.qop, qop ∈ policy.qops
  strongest : ∀ header ∈ headers, ∀ values, Holds header values → ∀ other, supported policy values = .ok (some other) →
    other.algorithm.strength ≤ c.algorithm.strength

theorem selectDigestChallenge_selected (h : selectDigestChallenge headers policy = .ok c) : Selected headers policy c := by
  obtain ⟨offered, hoffered, h⟩ := except_bind_ok h
  obtain ⟨each, heach, h⟩ := except_bind_ok h
  split at h
  · cases h
  · rename_i found hstrongest
    obtain rfl := Except.ok.inj h
    obtain ⟨hin, hmost⟩ := strongest_some hstrongest
    obtain ⟨hread, hback⟩ := forall₂_mem (except_mapM_ok heach)
    obtain ⟨values, hv, hs⟩ := hback (some found) (by simpa [List.mem_filterMap] using hin)
    obtain ⟨header, hh, hholds⟩ := (challenges_iff hoffered values).mp hv
    obtain ⟨halgorithm, hqop⟩ := supported_permitted hs
    refine ⟨⟨header, hh, values, hholds, hs⟩, halgorithm, hqop, fun header' hh' values' hholds' other hother => ?_⟩
    obtain ⟨result, hr, hs'⟩ := hread values' ((challenges_iff hoffered values').mpr ⟨header', hh', hholds'⟩)
    obtain rfl := Except.ok.inj (hother.symm.trans hs')
    exact hmost other (by simpa [List.mem_filterMap] using hr)

-- Fields

structure DigestField where
  key : String
  value : String
  quoted : Bool

namespace DigestField

def render (field : DigestField) : List Char :=
  field.key.toList ++ '=' :: if field.quoted then '"' :: ((escapeQuoted field.value).toList ++ ['"']) else field.value.toList

structure Sound (field : DigestField) : Prop where
  key : field.key.toList ≠ [] ∧ field.key.toList.all tokenChar ∧ lower field.key.toList = field.key.toList
  text : field.quoted → ∀ ch ∈ field.value.toList, isControlCharacter ch = false
  token : field.quoted = false → field.value.toList ≠ [] ∧ field.value.toList.all tokenChar

def entry (field : DigestField) : List Char × List Char := (field.key.toList, field.value.toList)

end DigestField

theorem escapeQuoted_toList (value : String) : (escapeQuoted value).toList =
    value.toList.flatMap fun ch => if ch = '\\' ∨ ch = '"' then ['\\', ch] else [ch] := String.toList_ofList

theorem escaped_escapeQuoted (value : String) : Escaped (escapeQuoted value).toList value.toList := by
  rw [escapeQuoted_toList]
  induction value.toList with
  | nil => exact .nil
  | cons ch text ih =>
    rw [List.flatMap_cons]
    split
    · rename_i h
      refine .escaped ?_ ih
      rcases h with rfl | rfl <;> decide
    · rename_i h
      rw [not_or] at h
      exact .plain h.2 h.1 ih

theorem Escaped.quoted (h : Escaped inside value) : Quoted inside := by
  induction h with
  | nil => exact .nil
  | plain hq hb _ ih => exact .plain hq hb ih
  | escaped _ _ ih => exact .escaped ih

theorem tokenChar_plain {text : List Char} (h : text.all tokenChar) : ∀ ch ∈ text, ch ≠ '"' ∧ ch ≠ ',' := by
  intro ch hch
  have ht := List.all_eq_true.mp h ch hch
  constructor
  · rintro rfl
    exact absurd ht (by decide)
  · rintro rfl
    exact absurd ht (by decide)

theorem tokenChar_control {ch : Char} (h : tokenChar ch) : isControlCharacter ch = false := by
  have := tokenChar_range h
  simp [isControlCharacter]
  omega

namespace DigestField

variable {field : DigestField}

theorem Sound.written (h : field.Sound) : Written field.key.toList field.value.toList field.render := by
  refine ⟨[], [], _, rfl, h.key.1, h.key.2.1, rfl, rfl, ?_⟩
  cases hq : field.quoted with
  | true => exact .inl ⟨_, rfl, escaped_escapeQuoted field.value⟩
  | false => exact .inr ⟨rfl, h.token hq⟩

theorem Sound.segment (h : field.Sound) : Segment field.render := by
  refine (Segment.of_plain (tokenChar_plain h.key.2.1)).append (.plain (by decide) (by decide) ?_)
  cases hq : field.quoted with
  | true => exact .quotes (escaped_escapeQuoted field.value).quoted .nil
  | false => exact .of_plain (tokenChar_plain (h.token hq).2)

theorem Sound.control (h : field.Sound) : ∀ ch ∈ field.render, isControlCharacter ch = false := by
  intro ch hch
  rcases List.mem_append.mp hch with hk | hv
  · exact tokenChar_control (List.all_eq_true.mp h.key.2.1 ch hk)
  · rcases List.mem_cons.mp hv with rfl | hv
    · decide
    · cases hq : field.quoted with
      | false =>
        rw [if_neg (by simp [hq])] at hv
        exact tokenChar_control (List.all_eq_true.mp (h.token hq).2 ch hv)
      | true =>
        rw [if_pos hq, List.mem_cons, List.mem_append, List.mem_singleton, escapeQuoted_toList, List.mem_flatMap] at hv
        rcases hv with rfl | ⟨c, hc, hv⟩ | rfl
        · decide
        · split at hv
          · rcases List.mem_cons.mp hv with rfl | hv
            · decide
            · rw [List.mem_singleton.mp hv]
              exact h.text hq c hc
          · rw [List.mem_singleton.mp hv]
            exact h.text hq c hc
        · decide

end DigestField

theorem trim_spaces {spaces text : List Char} (hs : spaces.all isSpace) (hfirst : ∀ ch ∈ text.head?, isSpace ch = false)
    (hlast : ∀ ch ∈ text.getLast?, isSpace ch = false) : trim (spaces ++ text) = text := by
  have hdrop {l : List Char} (h : ∀ ch ∈ l.head?, isSpace ch = false) : l.dropWhile isSpace = l := by
    cases l with
    | nil => rfl
    | cons ch l => simp [h ch rfl]
  unfold trim
  rw [List.dropWhile_append_of_pos (by simpa using hs), hdrop hfirst, hdrop, List.reverse_reverse]
  rw [List.head?_reverse]
  exact hlast

namespace DigestField

variable {field : DigestField}

theorem Sound.first (h : field.Sound) : ∀ ch ∈ field.render.head?, isSpace ch = false := by
  intro ch hch
  unfold render at hch
  cases hk : field.key.toList with
  | nil => exact absurd hk h.key.1
  | cons first rest =>
    rw [hk] at hch
    obtain rfl := Option.some.inj hch
    have := h.key.2.1
    rw [hk, List.all_cons, Bool.and_eq_true] at this
    exact tokenChar_space this.1

theorem Sound.last (h : field.Sound) : ∀ ch ∈ field.render.getLast?, isSpace ch = false := by
  intro ch hch
  cases hq : field.quoted with
  | true =>
    have hend : field.render = (field.key.toList ++ '=' :: '"' :: (escapeQuoted field.value).toList) ++ ['"'] := by
      simp [render, hq]
    rw [hend, List.getLast?_concat] at hch
    obtain rfl := Option.some.inj hch
    decide
  | false =>
    obtain ⟨hne, htoken⟩ := h.token hq
    have hend : field.render = (field.key.toList ++ ['=']) ++ field.value.toList := by simp [render, hq]
    rw [hend, List.getLast?_append_of_ne_nil _ hne] at hch
    exact tokenChar_space (List.all_eq_true.mp htoken ch (List.mem_of_getLast? hch))

end DigestField

theorem intercalate_comma (text : List Char) (texts : List (List Char)) :
    List.intercalate [',', ' '] (text :: texts) = List.intercalate [','] (text :: texts.map (' ' :: ·)) := by
  induction texts generalizing text with
  | nil => rfl
  | cons next texts ih =>
    rw [List.intercalate_cons_cons, ih, List.map_cons, List.intercalate_cons_cons]
    cases texts with
    | nil => simp
    | cons _ _ => simp [List.intercalate_cons_cons]

theorem append_intercalate (start text : List Char) (texts : List (List Char)) :
    start ++ List.intercalate [','] (text :: texts) = List.intercalate [','] ((start ++ text) :: texts) := by
  cases texts with
  | nil => simp
  | cons next texts => simp [List.intercalate_cons_cons]

def digestName : List Char := ['D', 'i', 'g', 'e', 's', 't']

theorem opens_digest {field : DigestField} (h : field.Sound) (hline : oneLine field.render) :
    Opens digestName field.render (digestName ++ ([' '] ++ field.render)) := by
  refine ⟨?_, by decide, by decide, .inr ⟨[' '], by decide, by decide, rfl, hline, h.first⟩⟩
  have hsplit := @key_split digestName [' '] field.render (by decide) (by decide) h.first nofun
  rw [← startsParameter_iff, Bool.not_eq_true]
  unfold startsParameter
  simp only [hsplit.1, hsplit.2]
  have hhead : field.render.head? ≠ some '=' := by
    intro hh
    unfold DigestField.render at hh
    cases hk : field.key.toList with
    | nil => exact absurd hk h.key.1
    | cons ch rest =>
      rw [hk] at hh
      obtain rfl := Option.some.inj hh
      have := h.key.2.1
      rw [hk] at this
      simp [tokenChar] at this
  simp [hhead]

theorem challengesOf_fields {header : String} {first : DigestField} {others : List DigestField}
    (hheader : header.toList = digestName ++ [' '] ++ List.intercalate [',', ' '] ((first :: others).map (·.render)))
    (hlength : utf16Length header ≤ 16384) (hsound : ∀ field ∈ first :: others, field.Sound)
    (hline : oneLine first.render) (hkeys : ((first :: others).map (·.key)).Nodup) :
    challengesOf header = .ok [(first :: others).map (·.entry)] := by
  obtain ⟨hfirst, hothers⟩ := List.forall_mem_cons.mp hsound
  have htext : header.toList = List.intercalate [',']
      ((digestName ++ [' '] ++ first.render) :: (others.map (·.render)).map (' ' :: ·)) := by
    rw [hheader, List.map_cons, intercalate_comma, append_intercalate]
  -- The segments, which `trim` makes the scheme and the fields.
  have hsegments : ∀ s ∈ (digestName ++ [' '] ++ first.render) :: (others.map (·.render)).map (' ' :: ·), Segment s := by
    refine List.forall_mem_cons.mpr ⟨(Segment.of_plain (by decide)).append hfirst.segment, fun s hs => ?_⟩
    obtain ⟨text, ht, rfl⟩ := List.mem_map.mp hs
    obtain ⟨field, hf, rfl⟩ := List.mem_map.mp ht
    exact .plain (by decide) (by decide) (hothers field hf).segment
  have htrim : ((digestName ++ [' '] ++ first.render) :: (others.map (·.render)).map (' ' :: ·)).map trim =
      (digestName ++ [' '] ++ first.render) :: others.map (·.render) := by
    have hne : first.render ≠ [] := by simp [DigestField.render]
    rw [List.map_cons]
    congr 1
    · refine @trim_spaces [] (digestName ++ [' '] ++ first.render) rfl (fun ch hch => ?_) ?_
      · obtain rfl := Option.some.inj hch
        decide
      · rw [List.getLast?_append_of_ne_nil _ hne]
        exact hfirst.last
    · rw [List.map_map]
      conv_rhs => rw [← List.map_id (others.map (·.render))]
      refine List.map_congr_left fun text ht => ?_
      obtain ⟨field, hf, rfl⟩ := List.mem_map.mp ht
      exact @trim_spaces [' '] _ (by decide) (hothers field hf).first (hothers field hf).last
  have hcontrol : ∀ ch ∈ header.toList, isControlCharacter ch = false := by
    intro ch hch
    rw [hheader] at hch
    rcases List.mem_append.mp hch with hch | hch
    · exact (show ∀ ch ∈ digestName ++ [' '], isControlCharacter ch = false by decide) ch hch
    · rcases Lib.mem_intercalate hch with hch | ⟨text, ht, hch⟩
      · exact (show ∀ ch ∈ [',', ' '], isControlCharacter ch = false by decide) ch hch
      · obtain ⟨field, hf, rfl⟩ := List.mem_map.mp ht
        exact (hsound field hf).control ch hch
  have hsplit : splitFields header = .ok ((digestName ++ [' '] ++ first.render) :: others.map (·.render)) :=
    (splitFields_iff _ _).mpr ⟨⟨hlength, hcontrol⟩, _, _, htext, hsegments, htrim.symm⟩
  have hwritten (fields : List DigestField) (hs : ∀ field ∈ fields, field.Sound) :
      List.Forall₂ (fun text value => ∃ key, value.1 = lower key ∧ Written key value.2 text) (fields.map (·.render))
        (fields.map (·.entry)) := by
    rw [List.forall₂_map_left_iff, List.forall₂_map_right_iff, List.forall₂_same]
    exact fun field hf => ⟨_, (hs field hf).key.2.2.symm, (hs field hf).written⟩
  have hoffer : Offer ((digestName ++ [' '] ++ first.render) :: others.map (·.render)) ((first :: others).map (·.entry)) := by
    refine ⟨_, _, digestName, first.render, rfl, ?_, by decide, ?_, ?_⟩
    · rw [List.append_assoc]
      exact opens_digest hfirst hline
    · rw [if_neg (by simp [DigestField.render])]
      exact hwritten (first :: others) hsound
    · have hentries : ((first :: others).map (·.entry)).map (·.1) = ((first :: others).map (·.key)).map String.toList := by
        rw [List.map_map, List.map_map]
        rfl
      rw [hentries]
      exact List.Nodup.map (fun _ _ h => String.toList_injective h) hkeys
  unfold challengesOf
  rw [hsplit]
  change (List.foldlM addPart {} _ >>= fun c => .ok c.all) = _
  rw [addOffer hoffer]
  rfl

-- Authorizations

namespace DigestAuthorizationInput

variable (hashes : Hashes) (input : DigestAuthorizationInput) (method : String) (nonceCount : Nat)

def userFields : List DigestField :=
  if input.challenge.userhash then
    [⟨"username", input.h hashes (input.username ++ ":" ++ input.challenge.realm), true⟩, ⟨"userhash", "true", false⟩]
  else if !input.plain ∧ input.challenge.utf8 then [⟨"username*", "UTF-8''" ++ percentEncoded input.username, false⟩]
  else [⟨"username", input.username, true⟩]

def challengeFields : List DigestField :=
  [⟨"realm", input.challenge.realm, true⟩, ⟨"nonce", input.challenge.nonce, true⟩, ⟨"uri", input.uri, true⟩,
    ⟨"algorithm", input.challenge.algorithm.name, false⟩, ⟨"response", input.response hashes method nonceCount, true⟩] ++
  (input.challenge.opaqueValue.map (⟨"opaque", ·, true⟩)).toList

def nonceFields : List DigestField := match input.challenge.qop with
  | some qop => [⟨"qop", qop.name, false⟩, ⟨"nc", nc nonceCount, false⟩, ⟨"cnonce", input.cnonce, true⟩]
  | none => if input.challenge.algorithm.isSession then [⟨"cnonce", input.cnonce, true⟩] else []

def fields : List DigestField :=
  input.userFields hashes ++ (input.challengeFields hashes method nonceCount ++ input.nonceFields nonceCount)

end DigestAuthorizationInput

theorem quoted_ok (h : quoted value = .ok text) :
    (∀ ch ∈ value.toList, isControlCharacter ch = false) ∧
      text.toList = '"' :: ((escapeQuoted value).toList ++ ['"']) := by
  unfold quoted at h
  split at h
  · cases h
  · rename_i hc
    rw [Bool.not_eq_true, List.any_eq_false] at hc
    obtain rfl := Except.ok.inj h
    exact ⟨fun ch hch => by simpa using hc ch hch, by simp [String.toList_append]⟩

theorem intercalate_flatten (texts others : List (List Char)) (hne : texts ≠ []) :
    List.intercalate [',', ' '] (List.intercalate [',', ' '] texts :: others) =
      List.intercalate [',', ' '] (texts ++ others) := by
  cases others with
  | nil => simp
  | cons other others => rw [List.intercalate_cons_cons, Lib.intercalate_append _ _ _ hne]

def DigestField.Wrote (field : DigestField) (text : String) : Prop :=
  text.toList = field.render ∧ (field.quoted → ∀ ch ∈ field.value.toList, isControlCharacter ch = false)

theorem wrote_quoted (start key : String) (hk : start.toList = key.toList ++ ['=']) (h : quoted value = .ok text) :
    DigestField.Wrote ⟨key, value, true⟩ (start ++ text) := by
  obtain ⟨hc, ht⟩ := quoted_ok h
  exact ⟨by simp [DigestField.render, String.toList_append, hk, ht], fun _ => hc⟩

theorem wrote_token (start key : String) (hk : start.toList = key.toList ++ ['=']) (value : String) :
    DigestField.Wrote ⟨key, value, false⟩ (start ++ value) :=
  ⟨by simp [DigestField.render, String.toList_append, hk], nofun⟩

section
variable {hashes : Hashes} {input : DigestAuthorizationInput} {method : String} {nonceCount : Nat}

theorem user_wrote (h : input.user hashes = .ok text) :
    text.toList = List.intercalate [',', ' '] ((input.userFields hashes).map (·.render)) ∧
      ∀ field ∈ input.userFields hashes, field.quoted → ∀ ch ∈ field.value.toList, isControlCharacter ch = false := by
  unfold DigestAuthorizationInput.user at h
  unfold DigestAuthorizationInput.userFields
  split at h
  · rename_i huserhash
    rw [if_pos huserhash]
    obtain ⟨name, hname, h⟩ := except_bind_ok h
    obtain rfl := Except.ok.inj h
    obtain ⟨ht, hc⟩ := wrote_quoted "username=" "username" (by decide) hname
    have hrest : ", userhash=true".toList = [',', ' '] ++ DigestField.render ⟨"userhash", "true", false⟩ := by decide
    refine ⟨?_, fun field hf => ?_⟩
    · rw [String.toList_append, ht, hrest]
      simp [List.intercalate_cons_cons]
    · rcases List.mem_cons.mp hf with rfl | hf
      · exact hc
      · rw [List.mem_singleton.mp hf]
        exact nofun
  · rename_i huserhash
    rw [if_neg huserhash]
    split at h
    · rename_i hextended
      rw [if_pos hextended]
      obtain rfl := Except.ok.inj h
      refine ⟨?_, fun field hf => ?_⟩
      · have hstart : "username*=UTF-8''".toList = "username*".toList ++ '=' :: "UTF-8''".toList := by decide
        simp [DigestField.render, String.toList_append, hstart]
      · rw [List.mem_singleton.mp hf]
        exact nofun
    · rename_i hextended
      rw [if_neg hextended]
      obtain ⟨name, hname, h⟩ := except_bind_ok h
      obtain rfl := Except.ok.inj h
      obtain ⟨ht, hc⟩ := wrote_quoted "username=" "username" (by decide) hname
      refine ⟨by simpa using ht, fun field hf => ?_⟩
      rw [List.mem_singleton.mp hf]
      exact hc

theorem opaque_wrote (h : input.challenge.opaqueValue.mapM quoted = .ok opaqueValue) :
    List.Forall₂ (fun field text => DigestField.Wrote field text)
      (input.challenge.opaqueValue.map (⟨"opaque", ·, true⟩)).toList (opaqueValue.map ("opaque=" ++ ·)).toList := by
  cases ho : input.challenge.opaqueValue with
  | none =>
    rw [ho] at h
    obtain rfl := Except.ok.inj h
    exact .nil
  | some value =>
    rw [ho, Option.mapM_some] at h
    obtain ⟨text, ht, h⟩ := except_bind_ok h
    obtain rfl := Except.ok.inj h
    exact .cons (wrote_quoted "opaque=" "opaque" (by decide) ht) .nil

theorem wrote_header {user : String} {userFields fields : List DigestField} {texts : List String} (hne : userFields ≠ [])
    (huser : user.toList = List.intercalate [',', ' '] (userFields.map (·.render)))
    (hwrote : List.Forall₂ (fun field text => DigestField.Wrote field text) fields texts) :
    ("Digest " ++ ", ".intercalate (user :: texts)).toList =
      digestName ++ [' '] ++ List.intercalate [',', ' '] ((userFields ++ fields).map (·.render)) := by
  have htexts : texts.map String.toList = fields.map (·.render) := by
    induction hwrote with
    | nil => rfl
    | cons h _ ih => rw [List.map_cons, List.map_cons, h.1, ih]
  have hstart : "Digest ".toList = digestName ++ [' '] := by decide
  have hcomma : ", ".toList = [',', ' '] := by decide
  rw [String.toList_append, String.toList_intercalate, hstart, hcomma, List.map_cons, huser, htexts,
    intercalate_flatten _ _ (by simpa using hne), List.map_append]

theorem userFields_ne : input.userFields hashes ≠ [] := by
  unfold DigestAuthorizationInput.userFields
  split
  · exact nofun
  · split <;> exact nofun

theorem created (h : createDigestAuthorizationOf hashes input method nonceCount = .ok header) :
    header.toList = digestName ++ [' '] ++
        List.intercalate [',', ' '] ((input.fields hashes method nonceCount).map (·.render)) ∧
      (∀ field ∈ input.fields hashes method nonceCount, field.quoted →
        ∀ ch ∈ field.value.toList, isControlCharacter ch = false) ∧
      (input.challenge.utf8 = false → ∀ ch ∈ input.username.toList, ch.toNat ≤ 0xff) := by
  unfold createDigestAuthorizationOf at h
  dsimp only at h
  split at h
  · cases h
  · split at h
    · cases h
    · rename_i houtside
      have hlatin : input.challenge.utf8 = false → ∀ ch ∈ input.username.toList, ch.toNat ≤ 0xff := by
        intro hutf8 ch hch
        by_contra hout
        refine houtside ⟨by simp [hutf8], List.any_eq_true.mpr ⟨ch, ?_, by simpa using hout⟩⟩
        rw [String.toList_append, String.toList_append]
        exact List.mem_append_left _ (List.mem_append_left _ hch)
      obtain ⟨user, huser, h⟩ := except_bind_ok h
      obtain ⟨realm, hrealm, h⟩ := except_bind_ok h
      obtain ⟨nonce, hnonce, h⟩ := except_bind_ok h
      obtain ⟨uri, huri, h⟩ := except_bind_ok h
      obtain ⟨response, hresponse, h⟩ := except_bind_ok h
      obtain ⟨opaqueValue, hopaque, h⟩ := except_bind_ok h
      obtain ⟨hu, hc⟩ := user_wrote huser
      -- The fields before the last, and the last where there are some.
      have hfixed : List.Forall₂ (fun field text => DigestField.Wrote field text)
          (input.challengeFields hashes method nonceCount) (["realm=" ++ realm, "nonce=" ++ nonce, "uri=" ++ uri,
            "algorithm=" ++ input.challenge.algorithm.name, "response=" ++ response] ++
            (opaqueValue.map ("opaque=" ++ ·)).toList) :=
        List.rel_append (.cons (wrote_quoted "realm=" "realm" (by decide) hrealm)
          (.cons (wrote_quoted "nonce=" "nonce" (by decide) hnonce) (.cons (wrote_quoted "uri=" "uri" (by decide) huri)
          (.cons (wrote_token "algorithm=" "algorithm" (by decide) _)
          (.cons (wrote_quoted "response=" "response" (by decide) hresponse) .nil))))) (opaque_wrote hopaque)
      have hdone {texts : List String}
          (hlast : List.Forall₂ (fun field text => DigestField.Wrote field text) (input.nonceFields nonceCount) texts) :
          ("Digest " ++ ", ".intercalate (user :: (["realm=" ++ realm, "nonce=" ++ nonce, "uri=" ++ uri,
            "algorithm=" ++ input.challenge.algorithm.name, "response=" ++ response] ++
            (opaqueValue.map ("opaque=" ++ ·)).toList ++ texts))).toList = digestName ++ [' '] ++ List.intercalate [',', ' ']
              ((input.fields hashes method nonceCount).map (·.render)) ∧
          (∀ field ∈ input.fields hashes method nonceCount, field.quoted →
            ∀ ch ∈ field.value.toList, isControlCharacter ch = false) ∧
          (input.challenge.utf8 = false → ∀ ch ∈ input.username.toList, ch.toNat ≤ 0xff) := by
        have hall := List.rel_append hfixed hlast
        refine ⟨wrote_header userFields_ne hu hall, List.forall_mem_append.mpr ⟨hc, fun field hf => ?_⟩, hlatin⟩
        obtain ⟨text, -, hw⟩ := (forall₂_mem hall).1 field hf
        exact hw.2
      simp only [List.append_assoc] at hdone
      unfold DigestAuthorizationInput.nonceFields at hdone
      split at h
      · rename_i hlast
        obtain ⟨cnonce, hcnonce, h⟩ := except_bind_ok h
        obtain rfl := Except.ok.inj h
        have hcnonce := wrote_quoted "cnonce=" "cnonce" (by decide) hcnonce
        cases hqop : input.challenge.qop with
        | none =>
          rw [hqop] at hlast
          have hsession : input.challenge.algorithm.isSession = true := hlast.resolve_left nofun
          simp only [hqop, hsession, if_true] at hdone ⊢
          exact hdone (.cons hcnonce .nil)
        | some qop =>
          simp only [hqop] at hdone ⊢
          exact hdone (.cons (wrote_token "qop=" "qop" (by decide) _)
            (.cons (wrote_token "nc=" "nc" (by decide) _) (.cons hcnonce .nil)))
      · rename_i hlast
        obtain rfl := Except.ok.inj h
        rw [not_or] at hlast
        obtain ⟨hqop, hsession⟩ := hlast
        rw [Option.not_isSome_iff_eq_none] at hqop
        simp only [hqop, if_neg hsession] at hdone ⊢
        exact hdone .nil

-- What is read of an authorization

theorem hexDigit_token (n : Nat) : tokenChar (hexDigit n) := by
  have hall : ∀ ch ∈ "0123456789ABCDEF".toList, tokenChar ch := by decide
  unfold hexDigit
  cases h : "0123456789ABCDEF".toList[n]? with
  | none => decide
  | some ch => exact hall ch (List.mem_of_getElem? h)

theorem percentEncoded_token (value : String) : (percentEncoded value).toList.all tokenChar := by
  unfold percentEncoded
  rw [String.toList_ofList, List.all_eq_true]
  intro ch hch
  obtain ⟨b, -, hb⟩ := List.mem_flatMap.mp hch
  dsimp only at hb
  split at hb
  · rename_i hplain
    rw [List.mem_singleton.mp hb]
    rcases hplain.2 with h | h
    · simp [tokenChar, h]
    · have hmarks : ∀ ch ∈ ['-', '_', '.', '~'], tokenChar ch := by decide
      exact hmarks _ (List.contains_iff_mem.mp h)
  · rcases List.mem_cons.mp hb with rfl | hb
    · decide
    · rcases List.mem_cons.mp hb with rfl | hb
      · exact hexDigit_token _
      · rw [List.mem_singleton.mp hb]
        exact hexDigit_token _

theorem nc_token (nonceCount : Nat) : (DigestAuthorizationInput.nc nonceCount).toList ≠ [] ∧
    (DigestAuthorizationInput.nc nonceCount).toList.all tokenChar := by
  have hdigit : ∀ n < 16, tokenChar (Nat.digitChar n) := by decide
  unfold DigestAuthorizationInput.nc
  rw [String.toList_ofList]
  refine ⟨by simp, ?_⟩
  rw [List.all_map, List.all_eq_true]
  exact fun place _ => hdigit _ (Nat.mod_lt _ (by decide))

def Keyed (key : String) : Prop := key.toList ≠ [] ∧ key.toList.all tokenChar ∧ lower key.toList = key.toList

instance (key : String) : Decidable (Keyed key) := inferInstanceAs (Decidable (_ ∧ _ ∧ _))

def Fit (field : DigestField) : Prop :=
  Keyed field.key ∧ (field.quoted = false → field.value.toList ≠ [] ∧ field.value.toList.all tokenChar)

theorem fit_quoted {key : String} (hk : Keyed key) (value : String) : Fit ⟨key, value, true⟩ := ⟨hk, nofun⟩

theorem fit_token {key value : String} (hk : Keyed key) (hv : value.toList ≠ [] ∧ value.toList.all tokenChar) :
    Fit ⟨key, value, false⟩ := ⟨hk, fun _ => hv⟩

theorem algorithm_token (algorithm : DigestAlgorithm) :
    algorithm.name.toList ≠ [] ∧ algorithm.name.toList.all tokenChar := by
  cases algorithm <;> decide

theorem qop_token (qop : DigestQop) : qop.name.toList ≠ [] ∧ qop.name.toList.all tokenChar := by cases qop <;> decide

theorem fields_fit : ∀ field ∈ input.fields hashes method nonceCount, Fit field := by
  refine List.forall_mem_append.mpr ⟨?_, List.forall_mem_append.mpr ⟨List.forall_mem_append.mpr ⟨?_, ?_⟩, ?_⟩⟩
  · unfold DigestAuthorizationInput.userFields
    split
    · exact List.forall_mem_cons.mpr
        ⟨fit_quoted (by decide) _, List.forall_mem_singleton.mpr (fit_token (by decide) (by decide))⟩
    · split
      · refine List.forall_mem_singleton.mpr (fit_token (by decide) ?_)
        have hstart : "UTF-8''".toList.all tokenChar := by decide
        rw [String.toList_append, List.all_append, hstart, percentEncoded_token]
        exact ⟨by simp, rfl⟩
      · exact List.forall_mem_singleton.mpr (fit_quoted (by decide) _)
  · simp only [List.forall_mem_cons]
    exact ⟨fit_quoted (by decide) _, fit_quoted (by decide) _, fit_quoted (by decide) _,
      fit_token (by decide) (algorithm_token _), fit_quoted (by decide) _, List.forall_mem_nil _⟩
  · cases input.challenge.opaqueValue with
    | none => exact List.forall_mem_nil _
    | some value => exact List.forall_mem_singleton.mpr (fit_quoted (by decide) _)
  · unfold DigestAuthorizationInput.nonceFields
    split
    · simp only [List.forall_mem_cons]
      exact ⟨fit_token (by decide) (qop_token _), fit_token (by decide) (nc_token _), fit_quoted (by decide) _,
        List.forall_mem_nil _⟩
    · split
      · exact List.forall_mem_singleton.mpr (fit_quoted (by decide) _)
      · exact List.forall_mem_nil _

theorem fields_nodup : ((input.fields hashes method nonceCount).map (·.key)).Nodup := by
  have huser : (input.userFields hashes).map (·.key) ∈ [["username", "userhash"], ["username*"], ["username"]] := by
    unfold DigestAuthorizationInput.userFields
    split
    · simp
    · split <;> simp
  have hchallenge : (input.challengeFields hashes method nonceCount).map (·.key) ∈
      [["realm", "nonce", "uri", "algorithm", "response"],
        ["realm", "nonce", "uri", "algorithm", "response", "opaque"]] := by
    unfold DigestAuthorizationInput.challengeFields
    cases input.challenge.opaqueValue <;> simp
  have hnonce : (input.nonceFields nonceCount).map (·.key) ∈ [["qop", "nc", "cnonce"], ["cnonce"], []] := by
    unfold DigestAuthorizationInput.nonceFields
    split
    · simp
    · split <;> simp
  unfold DigestAuthorizationInput.fields
  rw [List.map_append, List.map_append]
  have hall : ∀ user ∈ [["username", "userhash"], ["username*"], ["username"]],
      ∀ challenge ∈ [["realm", "nonce", "uri", "algorithm", "response"],
        ["realm", "nonce", "uri", "algorithm", "response", "opaque"]], ∀ nonce ∈ [["qop", "nc", "cnonce"], ["cnonce"], []], (user ++ (challenge ++ nonce)).Nodup := by decide
  exact hall _ huser _ hchallenge _ hnonce

theorem oneLine_render {field : DigestField} (hk : Keyed field.key) (h : ∀ ch ∈ field.value.toList, ch.toNat ≤ 0xff) :
    oneLine field.render := by
  have hline {ch : Char} (h : ch.toNat ≤ 0xff) : (ch.toNat ≠ 0x2028 && ch.toNat ≠ 0x2029) = true := by
    simp
    omega
  unfold oneLine
  rw [List.all_eq_true]
  intro ch hch
  refine hline ?_
  rcases List.mem_append.mp hch with hch | hch
  · have := tokenChar_range (List.all_eq_true.mp hk.2.1 ch hch)
    omega
  · rcases List.mem_cons.mp hch with rfl | hch
    · decide
    · split at hch
      · rw [List.mem_cons, List.mem_append, List.mem_singleton, escapeQuoted_toList, List.mem_flatMap] at hch
        rcases hch with rfl | ⟨c, hc, hch⟩ | rfl
        · decide
        · split at hch
          · rcases List.mem_cons.mp hch with rfl | hch
            · decide
            · rw [List.mem_singleton.mp hch]
              exact h c hc
          · rw [List.mem_singleton.mp hch]
            exact h c hc
        · decide
      · exact h ch hch

theorem le_of_token {text : List Char} (h : text.all tokenChar) : ∀ ch ∈ text, ch.toNat ≤ 0xff := by
  intro ch hch
  have := tokenChar_range (List.all_eq_true.mp h ch hch)
  omega

theorem userFields_line (hhex : ∀ bytes, (input.hash hashes bytes).toList.all tokenChar)
    (hlatin : input.challenge.utf8 = false → ∀ ch ∈ input.username.toList, ch.toNat ≤ 0xff) :
    ∃ first others, input.userFields hashes = first :: others ∧ oneLine first.render := by
  unfold DigestAuthorizationInput.userFields
  split
  · exact ⟨_, _, rfl, oneLine_render (show Keyed "username" by decide) (le_of_token (hhex _))⟩
  · split
    · refine ⟨_, _, rfl, oneLine_render (show Keyed "username*" by decide) (le_of_token ?_)⟩
      have hstart : "UTF-8''".toList.all tokenChar := by decide
      rw [String.toList_append, List.all_append, hstart, percentEncoded_token]
      rfl
    · rename_i hextended
      refine ⟨_, _, rfl, oneLine_render (show Keyed "username" by decide) fun ch hch => ?_⟩
      cases hutf8 : input.challenge.utf8 with
      | false => exact hlatin hutf8 ch hch
      | true =>
        have hplain : input.plain = true := by simpa [hutf8] using hextended
        have := List.all_eq_true.mp hplain ch hch
        simp at this
        omega

end

def Hashes.Hex (hashes : Hashes) : Prop :=
  ∀ bytes, (∀ ch ∈ (hashes.md5 bytes).toList, ch ∈ "0123456789abcdef".toList) ∧
    ∀ ch ∈ (hashes.sha256 bytes).toList, ch ∈ "0123456789abcdef".toList

theorem Hashes.Hex.token {hashes : Hashes} (h : hashes.Hex) (input : DigestAuthorizationInput) (bytes : Bytes) :
    (input.hash hashes bytes).toList.all tokenChar := by
  have hall : ∀ ch ∈ "0123456789abcdef".toList, tokenChar ch := by decide
  rw [List.all_eq_true]
  intro ch hch
  unfold DigestAuthorizationInput.hash at hch
  split at hch
  · exact hall ch ((h bytes).1 ch hch)
  · exact hall ch ((h bytes).2 ch hch)

/-- Nothing that a server or a user supplies changes what a header says: not of
the challenges that are offered, nor of an authorization. -/
theorem digest_headers (hashes : Hashes) (hhex : hashes.Hex) :
    (∀ headers policy c, selectDigestChallenge headers policy = .ok c → Selected headers policy c) ∧
    ∀ input method nonceCount header, createDigestAuthorizationOf hashes input method nonceCount = .ok header →
      utf16Length header ≤ 16384 →
      challengesOf header = .ok [(input.fields hashes method nonceCount).map (·.entry)] ∧
        ((input.fields hashes method nonceCount).map (·.key)).Nodup := by
  refine ⟨fun headers policy c h => selectDigestChallenge_selected h, ?_⟩
  refine fun input method nonceCount header h hlength => ⟨?_, fields_nodup⟩
  obtain ⟨htext, hcontrol, hlatin⟩ := created h
  obtain ⟨first, others, hfirst, hline⟩ := userFields_line (hhex.token input) hlatin
  have hfields : input.fields hashes method nonceCount =
      first :: (others ++ (input.challengeFields hashes method nonceCount ++ input.nonceFields nonceCount)) := by
    rw [DigestAuthorizationInput.fields, hfirst]
    rfl
  have hsound : ∀ field ∈ input.fields hashes method nonceCount, field.Sound := fun field hf =>
    ⟨(fields_fit field hf).1, hcontrol field hf, (fields_fit field hf).2⟩
  have hnodup : ((input.fields hashes method nonceCount).map (·.key)).Nodup := fields_nodup
  rw [hfields] at htext hsound hnodup ⊢
  exact challengesOf_fields htext hlength hsound hline hnodup

example : challengesOf "Basic realm=\"x, Digest nonce=y\", Digest realm=\"a,\\\"b\", nonce=n" =
    .ok [[("realm".toList, "a,\"b".toList), ("nonce".toList, "n".toList)]] := by decide

def sameHashes : Hashes := ⟨fun _ => "00", fun _ => "00"⟩

def sly : DigestAuthorizationInput where
  challenge := ⟨"a\", nonce=\"b", "c\\", .SHA_256, some .auth, some ", Digest realm=x", false, true, false⟩
  username := "user"
  password := "secret"
  uri := "/onvif"
  body := []
  cnonce := "d"

theorem sameHashes_hex : sameHashes.Hex := fun _ =>
  ⟨show ∀ ch ∈ "00".toList, ch ∈ "0123456789abcdef".toList by decide,
    show ∀ ch ∈ "00".toList, ch ∈ "0123456789abcdef".toList by decide⟩

theorem digest_headers_sly : ∃ header, createDigestAuthorizationOf sameHashes sly "POST" 1 = .ok header ∧
    challengesOf header = .ok [(sly.fields sameHashes "POST" 1).map (·.entry)] :=
  ⟨_, rfl, ((digest_headers sameHashes sameHashes_hex).2 sly "POST" 1 _ rfl (by decide +kernel)).1⟩

end WotAv.Binding
