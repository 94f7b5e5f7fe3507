import WotAv.Lib.Throwing
import WotAv.Media.Open
import WotAv.Native.Options

/-!
# OPEN and SECURITY across the pipe

What the session encodes the worker parses. Both bound every field alike; the
strings are counted, and the worker's reader takes them back one by one.
-/

namespace WotAv.System

open WotAv.Lib WotAv.Binding WotAv.Media WotAv.Native

variable {glib : GLib} {node : Node}

-- Counted strings

/-- A string as both sides lay it out. -/
def framed (value : String) : Bytes := beBytes 2 (utf8 value).length ++ utf8 value

theorem ipcString_ok : ipcString value maximum label = .ok bytes ↔
    (∀ ch ∈ value.toList, ch.toNat ≠ 0) ∧ (utf8 value).length ≤ min maximum 65535 ∧ bytes = framed value := by
  unfold ipcString
  rw [require_bind_ok, require_bind_ok]
  refine and_congr_right fun _ => and_congr_right fun _ => ?_
  exact ⟨fun h => (Except.ok.inj h).symm, fun h => congrArg Except.ok h.symm⟩

theorem ipcString_bind_ok {k : Bytes → Except OnvifError α} : (ipcString value maximum label >>= k) = .ok a ↔
    ((∀ ch ∈ value.toList, ch.toNat ≠ 0) ∧ (utf8 value).length ≤ min maximum 65535) ∧ k (framed value) = .ok a := by
  unfold ipcString
  rw [bind_assoc, require_bind_ok, bind_assoc, require_bind_ok, and_assoc]
  rfl

/-- GLib accepts the encoding of every string without a NUL. -/
def Validates (glib : GLib) : Prop := ∀ text : String, (∀ ch ∈ text.toList, ch.toNat ≠ 0) → glib.utf8Validate (utf8 text)

theorem string_framed (hg : Validates glib) (hv : ∀ ch ∈ value.toList, ch.toNat ≠ 0)
    (hl : (utf8 value).length ≤ min maximum 65535) (rest : Bytes) :
    Reader.string glib maximum ⟨framed value ++ rest, true⟩ = (⟨rest, true⟩, some (utf8 value)) := by
  have hlt : (utf8 value).length < 256 ^ 2 := by omega
  have hnul : (0 : UInt8) ∉ utf8 value := by
    intro h0
    obtain ⟨ch, hc, hz⟩ := mem_utf8_ascii h0 (by decide)
    exact hv ch hc hz
  have hlong : ¬(framed value ++ rest).length < 2 := by
    unfold framed
    simp only [List.length_append, length_beBytes]
    omega
  unfold Reader.string
  rw [if_neg (by simpa using hlong)]
  unfold framed
  simp only [List.append_assoc, readBE_here hlt, drop_beBytes (le_refl 2), Nat.sub_self, List.drop_zero, List.take_left',
    List.drop_left']
  rw [if_neg (by
    rw [List.length_append, hg value hv]
    simp only [hnul, or_false, Bool.true_eq_false]
    omega)]

theorem field_ok : field value maximum minimum = .ok n ↔ (minimum ≤ value ∧ value ≤ maximum) ∧ value = n := by
  have h : (field value maximum minimum >>= fun n => (.ok n : Except OnvifError Nat)) = .ok n ↔
      (minimum ≤ value ∧ value ≤ maximum) ∧ (.ok value : Except OnvifError Nat) = .ok n := field_bind_ok
  rw [show (field value maximum minimum >>= fun n => .ok n) = field value maximum minimum from bind_pure _] at h
  rw [h, Except.ok.injEq]

-- Lists

theorem mapM_nil_ok {f : α → Except ε β} : ([] : List α).mapM f = .ok l' ↔ l' = [] :=
  ⟨fun h => (Except.ok.inj h).symm, fun h => h ▸ rfl⟩

theorem mapM_same {f : α → Except ε α} (hf : ∀ a b, f a = .ok b → b = a) :
    ∀ {l l' : List α}, l.mapM f = .ok l' → l' = l ∧ ∀ a ∈ l, f a = .ok a := by
  intro l
  induction l with
  | nil =>
    intro l' h
    exact ⟨mapM_nil_ok.mp h, fun _ ha => nomatch ha⟩
  | cons a l ih =>
    intro l' h
    obtain ⟨b, l₁, hb, hl, rfl⟩ := except_mapM_cons.mp h
    obtain ⟨rfl, hall⟩ := ih hl
    obtain rfl := hf a b hb
    refine ⟨rfl, fun x hx => ?_⟩
    rcases List.mem_cons.mp hx with rfl | hx
    · exact hb
    · exact hall x hx

theorem list_ok [DecidableEq α] {check : α → Except OnvifError α} (hf : ∀ a b, check a = .ok b → b = a)
    (h : list value maximum check = .ok result) :
    result = value ∧ value ≠ [] ∧ value.length ≤ maximum ∧ ∀ a ∈ value, check a = .ok a := by
  unfold list at h
  rw [require_bind_ok] at h
  obtain ⟨⟨hne, hl⟩, h⟩ := h
  cases hm : value.mapM check with
  | error e =>
    rw [hm] at h
    cases h
  | ok l =>
    obtain ⟨rfl, hall⟩ := mapM_same hf hm
    rw [hm] at h
    change (require _ _ _ >>= _) = _ at h
    rw [require_bind_ok] at h
    exact ⟨(Except.ok.inj h.2).symm, hne, hl, hall⟩

theorem strings_ok (h : strings values = .ok bytes) :
    values.length ≤ 16 ∧ bytes = beBytes 2 values.length ++ (values.map framed).flatten ∧
      ∀ value ∈ values, (∀ ch ∈ value.toList, ch.toNat ≠ 0) ∧ (utf8 value).length ≤ min 2048 65535 := by
  unfold strings at h
  rw [field_bind_ok] at h
  obtain ⟨⟨_, hl⟩, h⟩ := h
  have hitems : ∀ {values : List String} {items : List Bytes},
      (values.mapM fun value => ipcString value 2048 "native origin") = .ok items → items = values.map framed ∧
        ∀ value ∈ values, (∀ ch ∈ value.toList, ch.toNat ≠ 0) ∧ (utf8 value).length ≤ min 2048 65535 := by
    intro values
    induction values with
    | nil =>
      intro items h
      exact ⟨mapM_nil_ok.mp h, fun _ ha => nomatch ha⟩
    | cons value values ih =>
      intro items h
      obtain ⟨b, l₁, hb, hl, rfl⟩ := except_mapM_cons.mp h
      obtain ⟨rfl, hall⟩ := ih hl
      obtain ⟨hnul, hlen, rfl⟩ := ipcString_ok.mp hb
      refine ⟨rfl, fun x hx => ?_⟩
      rcases List.mem_cons.mp hx with rfl | hx
      · exact ⟨hnul, hlen⟩
      · exact hall x hx
  cases hm : values.mapM fun value => ipcString value 2048 "native origin" with
  | error e =>
    rw [hm] at h
    cases h
  | ok items =>
    obtain ⟨rfl, hall⟩ := hitems hm
    rw [hm] at h
    exact ⟨hl, (Except.ok.inj h).symm, hall⟩

theorem stringsLoop_framed (hg : Validates glib) (values : List String) (rest : Bytes)
    (h : ∀ value ∈ values, (∀ ch ∈ value.toList, ch.toNat ≠ 0) ∧ (utf8 value).length ≤ min 2048 65535) :
    Reader.stringsLoop glib values.length ⟨(values.map framed).flatten ++ rest, true⟩ =
      (⟨rest, true⟩, some (values.map utf8)) := by
  induction values with
  | nil => rfl
  | cons value values ih =>
    have hv := h value List.mem_cons_self
    have hrest := ih fun x hx => h x (List.mem_cons_of_mem _ hx)
    simp only [List.length_cons, List.map_cons, List.flatten_cons, List.append_assoc, Reader.stringsLoop,
      string_framed hg hv.1 hv.2, hrest]

theorem strings_framed (hg : Validates glib) (h : strings values = .ok bytes) (rest : Bytes) :
    Reader.strings glib ⟨bytes ++ rest, true⟩ = (⟨rest, true⟩, some (values.map utf8)) := by
  obtain ⟨hl, rfl, hall⟩ := strings_ok h
  unfold Reader.strings
  rw [if_neg (by
    simp only [List.length_append, length_beBytes, Bool.true_eq_false, false_or]
    omega)]
  simp only [List.append_assoc, readBE_here (show values.length < 256 ^ 2 by omega), drop_beBytes (le_refl 2),
    Nat.sub_self, List.drop_zero]
  rw [if_neg (by omega)]
  exact stringsLoop_framed hg values rest hall

-- Origins

/-- GLib finds in a native URI what `new URL` finds in it. -/
def SameParts (glib : GLib) (node : Node) (uri : String) : Prop :=
  ∀ url origin, nativeMediaUrl node uri = .ok (url, origin) → ∃ parsed host, glib.uriParse (utf8 uri) = some parsed ∧
    parsed.scheme ++ utf8 ":" = utf8 url.protocol ∧ parsed.userinfo = none ∧ parsed.fragment = none ∧
    parsed.host = some host ∧ (if colon ∈ host then utf8 "[" ++ host ++ utf8 "]" else host) = utf8 url.hostname ∧
    ∀ port, url.port = some port → parsed.port = port

/-- What a native URL has passed. -/
structure NativeUrl (uri : String) (url : Url) (origin : String) : Prop where
  short : (utf8 uri).length ≤ 2048
  plain : ∀ ch ∈ uri.toList, ¬isForbidden ch
  pattern : nativePattern uri
  scheme : url.protocol = "rtsp:" ∨ url.protocol = "rtsps:"
  hostname : url.hostname ≠ ""
  port : ∃ port, url.port = some port ∧ 1 ≤ port ∧ port ≤ 65535
  origin : origin = url.nativeOrigin

theorem nativeMediaUrl_ok (h : nativeMediaUrl node uri = .ok (url, origin)) : NativeUrl uri url origin := by
  unfold nativeMediaUrl at h
  rw [require_bind_ok] at h
  obtain ⟨⟨hshort, hplain, hpattern⟩, h⟩ := h
  cases hu : node.url uri with
  | none =>
    rw [hu] at h
    cases h
  | some url' =>
    rw [hu] at h
    dsimp only at h
    rw [require_bind_ok] at h
    obtain ⟨⟨hscheme, _, _, _, hhost, _, hport⟩, h⟩ := h
    obtain ⟨rfl, rfl⟩ := Prod.mk.inj (Except.ok.inj h)
    refine ⟨hshort, hplain, hpattern, hscheme, hhost, ?_, rfl⟩
    cases hp : url'.port with
    | none =>
      rw [hp] at hport
      cases hport
    | some port =>
      rw [hp] at hport
      simp only [Option.any_some, Bool.and_eq_true, decide_eq_true_eq] at hport
      exact ⟨port, rfl, hport⟩

theorem utf8_eq_nil {text : String} (h : utf8 text = []) : text = "" := by
  have hnil : text.toList = [] := by
    cases hl : text.toList with
    | nil => rfl
    | cons ch rest =>
      unfold utf8 at h
      rw [hl, List.flatMap_cons, List.append_eq_nil_iff] at h
      have hlen := congrArg List.length h.1
      rw [String.length_utf8EncodeChar] at hlen
      exact absurd hlen (Char.utf8Size_pos ch).ne'
  exact String.toList_eq_nil_iff.mp hnil

theorem pattern_ne (h : nativePattern uri) : uri ≠ "" := by
  rintro rfl
  revert h
  decide

theorem plain_bytes (h : ∀ ch ∈ uri.toList, ¬isForbidden ch) : ¬∃ b ∈ utf8 uri, b = 0x5c ∨ b ≤ 0x20 ∨ b = 0x7f := by
  rintro ⟨b, hb, hbad⟩
  have hcode : b.toNat = 0x5c ∨ b.toNat ≤ 0x20 ∨ b.toNat = 0x7f := by
    rcases hbad with rfl | hle | rfl
    · exact .inl rfl
    · exact .inr (.inl (UInt8.le_iff_toNat_le.mp hle))
    · exact .inr (.inr rfl)
  obtain ⟨ch, hc, hch⟩ := mem_utf8_ascii hb (by omega)
  refine h ch hc ?_
  unfold isForbidden
  simp only [Bool.or_eq_true, decide_eq_true_eq]
  omega

theorem mediaOrigin_native (hs : SameParts glib node uri) (h : nativeMediaUrl node uri = .ok (url, origin)) :
    mediaOrigin glib (utf8 uri) false = some (utf8 origin) := by
  have hn := nativeMediaUrl_ok h
  obtain ⟨parsed, host, hparse, hscheme, huser, hfragment, hhost, hname, hport⟩ := hs url origin h
  obtain ⟨port, hp, hlow, hhigh⟩ := hn.port
  have hparsed : parsed.port = port := hport port hp
  have hne : host ≠ [] := by
    rintro rfl
    rw [if_neg List.not_mem_nil] at hname
    exact hn.hostname (utf8_eq_nil hname.symm)
  have hprotocol : parsed.scheme = utf8 "rtsp" ∨ parsed.scheme = utf8 "rtsps" := by
    rcases hn.scheme with hr | hr <;> rw [hr] at hscheme
    · exact .inl (List.append_cancel_right (hscheme.trans (utf8_append "rtsp" ":")))
    · exact .inr (List.append_cancel_right (hscheme.trans (utf8_append "rtsps" ":")))
  unfold mediaOrigin
  rw [if_neg (by
    rw [not_or, not_or]
    exact ⟨fun he => pattern_ne hn.pattern (utf8_eq_nil he), by have := hn.short; omega, plain_bytes hn.plain⟩)]
  simp only [hparse, hhost, Option.bind_eq_bind, Option.bind_some]
  rw [if_neg (by
    rw [huser, hfragment, hparsed]
    simp only [hne, Option.isSome_none, false_or, Bool.false_eq_true]
    omega)]
  rw [if_neg (by simp), if_neg (by
    rintro ⟨_, h₁, h₂⟩
    rcases hprotocol with hr | hr
    · exact h₁ hr
    · exact h₂ hr)]
  rw [hname, hparsed, hn.origin]
  unfold Url.nativeOrigin
  rw [hp]
  simp only [Option.elim_some, utf8_append, ← hscheme, decimal, Int.toNat_natCast]
  simp only [List.append_assoc]
  rfl

theorem exactOrigin_ok (h : exactOrigin node entry = .ok origin) :
    origin = entry ∧ ∃ url, nativeMediaUrl node entry = .ok (url, entry) := by
  unfold exactOrigin at h
  cases hn : nativeMediaUrl node entry with
  | error e =>
    rw [hn] at h
    cases h
  | ok found =>
    obtain ⟨url, found⟩ := found
    rw [hn] at h
    change (require _ _ _ >>= _) = _ at h
    rw [require_bind_ok] at h
    obtain ⟨rfl, h⟩ := h
    exact ⟨(Except.ok.inj h).symm, url, rfl⟩

theorem originList_native {origins : List String} {required : Bool} (hne : required → origins ≠ [])
    (h : ∀ origin ∈ origins, SameParts glib node origin ∧ ∃ url, nativeMediaUrl node origin = .ok (url, origin)) :
    originList glib (origins.map utf8) required := by
  unfold originList
  rw [if_neg (by
    rintro ⟨hr, hnil⟩
    exact hne hr (List.map_eq_nil_iff.mp hnil)), List.all_map, List.all_eq_true]
  intro origin ho
  obtain ⟨hs, url, hu⟩ := h origin ho
  simp [mediaOrigin_native hs hu]

-- Trust, target and material

theorem mediaText_ok (h : mediaText value maximum label empty = .ok text) :
    text = value ∧ (empty ∨ value ≠ "") ∧ (∀ ch ∈ value.toList, ¬isControlCharacter ch) ∧ (utf8 value).length ≤ maximum := by
  unfold mediaText at h
  rw [require_bind_ok, require_bind_ok] at h
  exact ⟨(Except.ok.inj h.2.2).symm, h.1.1, h.1.2, h.2.1⟩

/-- The policy of a context that `MediaExecutor.consume` has bound. -/
structure Bound (node : Node) (context : MediaConsumerContext) : Prop where
  targetRef : context.targetRef ≠ ""
  principal : context.principal ≠ ""
  origins : context.trust.allowedOrigins ≠ []
  exact : ∀ origin ∈ context.trust.allowedOrigins, ∃ url, nativeMediaUrl node origin = .ok (url, origin)
  redirects : ∀ origin ∈ context.trust.allowedRedirectOrigins.getD [], origin ∈ context.trust.allowedOrigins
  realm : ∀ realm allow, context.trust.authentication = .digest realm allow → realm ≠ ""
  tunnelRealm : ∀ realm allow, context.trust.tunnelAuthentication = some (.digest realm allow) → realm ≠ ""

theorem redirectOrigins_ok (h : redirectOrigins origins allowed = .ok redirects) : ∀ origin ∈ redirects,
    origin ∈ origins := by
  unfold redirectOrigins at h
  split at h
  · rw [← Except.ok.inj h]
    exact fun _ ho => nomatch ho
  · obtain ⟨rfl, _, _, hall⟩ := list_ok (fun a b hab => by
      rw [require_bind_ok] at hab
      exact (Except.ok.inj hab.2).symm) h
    intro origin ho
    have hin := hall origin ho
    rw [require_bind_ok] at hin
    exact hin.1

theorem authentication_ok (h : authentication value = .ok auth) : ∀ realm allow, auth = .digest realm allow → realm ≠ "" := by
  rintro realm allow rfl
  cases value with
  | none => cases h
  | digest given allow' =>
    obtain ⟨text, hm, hd⟩ := except_bind_ok h
    obtain ⟨rfl, hne, _⟩ := mediaText_ok hm
    obtain ⟨rfl, _⟩ := MediaAuthentication.digest.inj (Except.ok.inj hd)
    simpa using hne

theorem mapM_option_ok {f : α → Except ε β} {value : Option α} (h : value.mapM f = .ok result) :
    (value = none ∧ result = none) ∨ ∃ a b, value = some a ∧ result = some b ∧ f a = .ok b := by
  cases value with
  | none => exact .inl ⟨rfl, (Except.ok.inj h).symm⟩
  | some a =>
    cases hf : f a with
    | error e =>
      rw [Option.mapM_some, hf] at h
      cases h
    | ok b =>
      rw [Option.mapM_some, hf] at h
      exact .inr ⟨a, b, rfl, (Except.ok.inj h).symm, hf⟩

theorem consume_bound (h : consume node context = .ok bound) : Bound node bound := by
  obtain ⟨principal, hp, h⟩ := except_bind_ok h
  obtain ⟨targetRef, ht, h⟩ := except_bind_ok h
  obtain ⟨trust, hv, h⟩ := except_bind_ok h
  obtain rfl := Except.ok.inj h
  obtain ⟨rfl, hprincipal, _⟩ := mediaText_ok hp
  obtain ⟨rfl, htarget, _⟩ := mediaText_ok ht
  obtain ⟨origins, ho, hv⟩ := except_bind_ok hv
  obtain ⟨redirects, hr, hv⟩ := except_bind_ok hv
  obtain ⟨auth, ha, hv⟩ := except_bind_ok hv
  obtain ⟨tunnel, hu, hv⟩ := except_bind_ok hv
  obtain ⟨_, _, hv⟩ := except_bind_ok hv
  obtain ⟨_, _, hv⟩ := except_bind_ok hv
  obtain ⟨_, _, hv⟩ := except_bind_ok hv
  obtain ⟨_, _, hv⟩ := except_bind_ok hv
  obtain rfl := Except.ok.inj hv
  obtain ⟨rfl, hne, _, hall⟩ := list_ok (fun a b hab => (exactOrigin_ok hab).1) ho
  refine ⟨by simpa using htarget, by simpa using hprincipal, hne, fun origin hin => (exactOrigin_ok (hall origin hin)).2,
    redirectOrigins_ok hr, authentication_ok ha, fun realm allow hd => ?_⟩
  rcases mapM_option_ok hu with ⟨_, rfl⟩ | ⟨given, _, _, rfl, hg⟩
  · cases hd
  · exact authentication_ok hg realm allow (Option.some.inj hd)

-- SECURITY

/-- What the worker is to read from SECURITY. -/
def secretsOf (d : MediaOpenDescriptor) (material : MediaSecurityMaterial) : MediaSecrets where
  credentialHandle := d.credentialHandle
  trustHandle := d.trustHandle
  targetRef := utf8 d.scope.targetRef
  principal := utf8 d.scope.principal
  origin := utf8 d.scope.origin
  realm := utf8 (material.native.elim "" (·.realm))
  username := utf8 (material.native.elim "" (·.username))
  password := utf8 (material.native.elim "" (·.password))
  outerOrigin := utf8 (material.tunnel.elim "" (·.origin))
  outerRealm := utf8 (material.tunnel.elim "" (·.realm))
  outerUsername := utf8 (material.tunnel.elim "" (·.username))
  outerPassword := utf8 (material.tunnel.elim "" (·.password))
  caPem := utf8 (material.caPem.getD "")
  allowMd5 := d.allowsMd5

theorem bounded_ok {p : Prop} [Decidable p] {result bytes : Bytes}
    (h : (if p then invalidValue message else pure result : Except OnvifError Bytes) = .ok bytes) :
    bytes = result := by
  split at h
  · cases h
  · exact (Except.ok.inj h).symm

structure Whole (d : MediaOpenDescriptor) (material : MediaSecurityMaterial) : Prop where
  targetRef : d.scope.targetRef ≠ ""
  principal : d.scope.principal ≠ ""
  native : d.credentialHandle ≠ 0 → ∃ p, material.native = some p ∧ p.realm ≠ "" ∧ p.username ≠ ""
  anonymous : d.credentialHandle = 0 → material.native = none
  tunnel : ∀ p, material.tunnel = some p → p.origin ≠ "" ∧ p.realm ≠ ""

theorem utf8_ne {text : String} (h : text ≠ "") : utf8 text ≠ [] := fun he => h (utf8_eq_nil he)

theorem mediaSecretsParse_security (hg : Validates glib) (hw : Whole d material)
    (h : encodeSecurity d material = .ok bytes) : mediaSecretsParse glib bytes = some (secretsOf d material) := by
  simp only [encodeSecurity, field_bind_ok, ipcString_bind_ok] at h
  obtain ⟨⟨_, hc⟩, ⟨ht, ht'⟩, ⟨h₁, l₁⟩, ⟨h₂, l₂⟩, ⟨h₃, l₃⟩, ⟨h₄, l₄⟩, ⟨h₅, l₅⟩, ⟨h₆, l₆⟩, ⟨h₇, l₇⟩, ⟨h₈, l₈⟩, ⟨h₉, l₉⟩,
    ⟨h₁₀, l₁₀⟩, ⟨h₁₁, l₁₁⟩, h⟩ := h
  obtain rfl := bounded_ok h
  have hmd5 : (if d.allowsMd5 then 1 else 0) < 256 ^ 1 := by split <;> decide
  have hcredential : d.credentialHandle < 256 ^ 4 := by omega
  have htrust : d.trustHandle < 256 ^ 4 := by omega
  have hzero : beBytes 3 0 = [0, 0, 0] := rfl
  have hcapem := string_framed hg h₁₁ l₁₁ []
  rw [List.append_nil] at hcapem
  simp only [List.append_assoc, hzero, List.cons_append, List.nil_append]
  unfold mediaSecretsParse
  rw [if_neg (by
    simp only [byteAt, List.length_append, length_beBytes, List.length_cons]
    simp (disch := decide) only [readBE_skip, Nat.reduceSub, readBE_here hmd5]
    have hflag : ¬(if d.allowsMd5 then 1 else 0) > 1 := by split <;> decide
    rintro (hlen | hbig | hn | hn | hn)
    · omega
    · exact hflag hbig
    all_goals exact hn rfl)]
  simp (disch := decide) only [byteAt, readBE_here hcredential, readBE_skip, Nat.reduceSub, readBE_here htrust,
    readBE_here hmd5, drop_beBytes, List.drop_succ_cons, List.drop_zero, string_framed hg h₁ l₁, string_framed hg h₂ l₂,
    string_framed hg h₃ l₃, string_framed hg h₄ l₄, string_framed hg h₅ l₅, string_framed hg h₆ l₆,
    string_framed hg h₇ l₇, string_framed hg h₈ l₈, string_framed hg h₉ l₉, string_framed hg h₁₀ l₁₀, hcapem,
    Option.bind_eq_bind, Option.bind_some]
  rw [if_neg (by
    rintro (hv | hr | hz | he | he | ⟨hc, he⟩ | ⟨hc, he⟩ | ⟨hu, he⟩)
    · cases hv
    · exact hr rfl
    · omega
    · exact utf8_ne hw.targetRef he
    · exact utf8_ne hw.principal he
    · obtain ⟨p, hp, hrealm, huser⟩ := hw.native hc
      rw [hp] at he
      rcases he with he | he
      · exact utf8_ne huser he
      · exact utf8_ne hrealm he
    · rw [hw.anonymous hc] at he
      rcases he with he | he | he <;> exact he rfl
    · cases ht : material.tunnel with
      | none =>
        rw [ht] at hu
        exact hu rfl
      | some p =>
        obtain ⟨horigin, hrealm⟩ := hw.tunnel p ht
        rw [ht] at he
        rcases he with he | he
        · exact utf8_ne horigin he
        · exact utf8_ne hrealm he)]
  have hallow : decide ((if d.allowsMd5 then 1 else 0) ≠ 0) = d.allowsMd5 := by cases d.allowsMd5 <;> rfl
  rw [hallow]
  rfl

-- Requests

structure WithinLimits (limits : MediaLimits) : Prop where
  wireBytes : 0 < limits.wireBytes ∧ limits.wireBytes ≤ 8 * 1024 * 1024
  inflatedBytes : 0 < limits.inflatedBytes ∧ limits.inflatedBytes ≤ 32 * 1024 * 1024
  metadataDeadlineMs : 0 < limits.metadataDeadlineMs ∧ limits.metadataDeadlineMs ≤ 10000
  queueBytes : 65536 ≤ limits.queueBytes ∧ limits.queueBytes ≤ 128 * 1024 * 1024
  queueUnits : 0 < limits.queueUnits ∧ limits.queueUnits ≤ 256
  maxWidth : 0 < limits.maxWidth ∧ limits.maxWidth ≤ 8192
  maxHeight : 0 < limits.maxHeight ∧ limits.maxHeight ≤ 8192
  decodedBytes : 384 ≤ limits.decodedBytes ∧ limits.decodedBytes ≤ 64 * 1024 * 1024

theorem limit_ok (h : limit value default_ maximum name = .ok n) : 0 < n ∧ n ≤ maximum := by
  obtain ⟨_, hpos, hle, _⟩ := positiveInteger_ok.mp h
  exact ⟨hpos, hle⟩

theorem mediaLimits_ok (h : mediaLimits input = .ok limits) : WithinLimits limits := by
  obtain ⟨_, h₁, h⟩ := except_bind_ok h
  obtain ⟨_, h₂, h⟩ := except_bind_ok h
  obtain ⟨_, h₃, h⟩ := except_bind_ok h
  obtain ⟨_, h₄, h⟩ := except_bind_ok h
  obtain ⟨_, h₅, h⟩ := except_bind_ok h
  obtain ⟨_, _, h⟩ := except_bind_ok h
  obtain ⟨_, h₇, h⟩ := except_bind_ok h
  obtain ⟨_, h₈, h⟩ := except_bind_ok h
  obtain ⟨_, h₉, h⟩ := except_bind_ok h
  obtain ⟨_, _, h⟩ := except_bind_ok h
  obtain ⟨_, _, h⟩ := except_bind_ok h
  obtain ⟨_, _, h⟩ := except_bind_ok h
  obtain ⟨_, _, h⟩ := except_bind_ok h
  obtain ⟨_, _, h⟩ := except_bind_ok h
  rw [require_bind_ok] at h
  obtain ⟨⟨hqueue, hdecoded⟩, h⟩ := h
  obtain rfl := Except.ok.inj h
  exact ⟨limit_ok h₁, limit_ok h₂, limit_ok h₃, ⟨hqueue, (limit_ok h₄).2⟩, limit_ok h₅, limit_ok h₇, limit_ok h₈,
    ⟨hdecoded, (limit_ok h₉).2⟩⟩

theorem foldl_codecs (codecs : List MediaCodec) (mask : Nat) (h : mask < 2 ^ 6) :
    codecs.foldl (fun mask codec => mask ||| MEDIA_CODECS codec) mask < 2 ^ 6 := by
  induction codecs generalizing mask with
  | nil => exact h
  | cons codec codecs ih =>
    refine ih _ (Nat.or_lt_two_pow h ?_)
    cases codec <;> decide

theorem codecMaskOf_ok {ofKind : MediaCodec → Bool} (h : codecMaskOf codecs maximum ofKind message = .ok mask) :
    mask < 2 ^ 6 := by
  unfold codecMaskOf at h
  split at h
  · rw [← Except.ok.inj h]
    decide
  · obtain ⟨codecs, _, h⟩ := except_bind_ok h
    rw [← Except.ok.inj h]
    exact foldl_codecs codecs 0 (by decide)

structure Requested (node : Node) (request : OpenMediaRequest) (validated : ValidatedRequest) : Prop where
  transport : request.transport ∈ MEDIA_TRANSPORTS
  address : unicastAddress node request.localAddress
  tracks : validated.trackMask = request.tracks.mask
  codecs : validated.codecMask ≠ 0 ∧ validated.codecMask ≤ 0x3f
  replay : ∀ range, request.replay = some range → mediaRangeValid range.startNtpNs range.endNtpNs ∧
    request.transport ≠ .udpUnicast ∧ request.tracks.backchannel = none
  limits : WithinLimits validated.limits

theorem validateReplayRange_ok (h : validateReplayRange value = .ok range) :
    mediaRangeValid value.startNtpNs value.endNtpNs := by
  unfold validateReplayRange at h
  rw [require_bind_ok] at h
  unfold mediaRangeValid
  simp only [Bool.and_eq_true, decide_eq_true_eq]
  omega

theorem validateMediaRequest_ok (h : validateMediaRequest node request = .ok validated) :
    Requested node request validated := by
  obtain ⟨_, _, h⟩ := except_bind_ok h
  obtain ⟨_, _, h⟩ := except_bind_ok h
  rw [require_bind_ok] at h
  obtain ⟨⟨htransport, _⟩, h⟩ := h
  obtain ⟨_, _, h⟩ := except_bind_ok h
  rw [require_bind_ok] at h
  obtain ⟨haddress, h⟩ := h
  obtain ⟨video, hv, h⟩ := except_bind_ok h
  obtain ⟨audio, ha, h⟩ := except_bind_ok h
  rw [require_bind_ok] at h
  obtain ⟨_, h⟩ := h
  dsimp only at h
  rw [require_bind_ok] at h
  obtain ⟨_, h⟩ := h
  obtain ⟨replay, hr, h⟩ := except_bind_ok h
  rw [require_bind_ok] at h
  obtain ⟨hrecorded, h⟩ := h
  obtain ⟨limits, hl, h⟩ := except_bind_ok h
  obtain rfl := Except.ok.inj h
  refine ⟨htransport, haddress, rfl, ?_, fun range hrange => ?_, mediaLimits_ok hl⟩
  · have hback : (if request.tracks.backchannel.isSome then MEDIA_CODECS .PCMU else 0) < 2 ^ 6 := by split <;> decide
    have hmask := Nat.or_lt_two_pow (Nat.or_lt_two_pow (codecMaskOf_ok hv) (codecMaskOf_ok ha)) hback
    dsimp only
    generalize (video ||| audio ||| if request.tracks.backchannel.isSome then MEDIA_CODECS .PCMU else 0) = mask at hmask ⊢
    by_cases hz : mask = 0
    · rw [if_pos hz]
      decide
    · rw [if_neg hz]
      exact ⟨hz, by omega⟩
  · rcases mapM_option_ok hr with ⟨hn, _⟩ | ⟨a, b, hs, _, hb⟩
    · rw [hn] at hrange
      cases hrange
    · obtain rfl := Option.some.inj (hs.symm.trans hrange)
      rw [hs] at hrecorded
      refine ⟨validateReplayRange_ok hb, fun hu => hrecorded ⟨rfl, .inl hu⟩, ?_⟩
      cases hk : request.tracks.backchannel with
      | none => rfl
      | some codec => exact absurd ⟨rfl, .inr (by rw [hk]; rfl)⟩ hrecorded

-- OPEN

/-- What the worker is to read from OPEN. -/
def optionsOf (d : MediaOpenDescriptor) (secrets : MediaSecrets) : MediaOptions where
  mode := d.mode
  transport := d.transport
  tracks := d.trackMask
  flags := d.flags
  credentialHandle := d.credentialHandle
  trustHandle := d.trustHandle
  startNtpNs := d.startNtpNs
  endNtpNs := d.endNtpNs
  wireMax := d.limits.wireBytes
  inflatedMax := d.limits.inflatedBytes
  deadlineMs := d.limits.metadataDeadlineMs
  queueBytes := d.limits.queueBytes
  queueFrames := d.limits.queueUnits
  maxWidth := d.limits.maxWidth
  maxHeight := d.limits.maxHeight
  decodedMax := d.limits.decodedBytes
  codecs := d.codecMask
  uri := utf8 d.scope.uri
  targetRef := utf8 d.scope.targetRef
  principal := utf8 d.scope.principal
  localAddress := utf8 d.request.localAddress
  origins := d.trust.allowedOrigins.map utf8
  redirects := (d.trust.allowedRedirectOrigins.getD []).map utf8
  secrets := secrets

/-- A descriptor of a validated request. -/
structure Described (d : MediaOpenDescriptor) : Prop where
  transport : d.request.transport ∈ MEDIA_TRANSPORTS
  codecs : d.codecMask ≠ 0 ∧ d.codecMask ≤ 0x3f
  handle : d.credentialHandle = 0 ↔ d.scope.authentication = .none
  replay : ∀ range, d.request.replay = some range → mediaRangeValid range.startNtpNs range.endNtpNs ∧
    d.request.transport ≠ .udpUnicast ∧ d.trackMask &&& 8 = 0
  limits : WithinLimits d.limits

theorem range_valid (h : mediaRangeValid start finish) : start < 2 ^ 64 ∧ finish < 2 ^ 64 := by
  unfold mediaRangeValid at h
  simp only [Bool.and_eq_true, decide_eq_true_eq] at h
  omega

theorem flags_none (d : MediaOpenDescriptor) : d.flags &&& 2 = 0 ↔ d.scope.authentication ≠ .none := by
  unfold MediaOpenDescriptor.flags
  by_cases ha : d.scope.authentication = .none <;> cases d.request.packetOutput.getD false <;> simp [ha]

theorem options_bounded (hd : Described d) (ht : 1 ≤ d.trackMask ∧ d.trackMask ≤ 15) (secrets : MediaSecrets) :
    (optionsOf d secrets).bounded := by
  have hindex := List.idxOf_lt_length_of_mem hd.transport
  have hlength : MEDIA_TRANSPORTS.length = 5 := rfl
  have hmode : d.mode ≤ 1 := by
    unfold MediaOpenDescriptor.mode
    split <;> decide
  have hflags : d.flags ≤ 3 := by
    unfold MediaOpenDescriptor.flags
    split <;> split <;> decide
  have htransport : d.transport = MEDIA_TRANSPORTS.idxOf d.request.transport + 1 := rfl
  have hlive (hm : d.mode = 0) : d.request.replay = none := by
    unfold MediaOpenDescriptor.mode at hm
    cases hr : d.request.replay with
    | none => rfl
    | some range =>
      rw [hr] at hm
      cases hm
  have hl := hd.limits
  refine ⟨hmode, ?_, ?_, ?_, ht.2, hflags, fun hc hf => ?_, fun hc => ?_, fun hm => ?_, fun hm => ?_, hl.wireBytes.1.ne',
    hl.wireBytes.2, hl.inflatedBytes.1.ne', hl.inflatedBytes.2, hl.metadataDeadlineMs.1.ne', hl.metadataDeadlineMs.2,
    hl.queueBytes.1, hl.queueBytes.2, hl.queueUnits.1.ne', hl.queueUnits.2, hl.maxWidth.1.ne', hl.maxWidth.2,
    hl.maxHeight.1.ne', hl.maxHeight.2, hl.decodedBytes.1, hl.decodedBytes.2, hd.codecs.1, hd.codecs.2⟩
  · change 1 ≤ d.transport
    omega
  · change d.transport ≤ 5
    omega
  · change d.trackMask ≠ 0
    omega
  · exact (flags_none d).mp hf (hd.handle.mp hc)
  · exact (flags_none d).mpr fun ha => hc (hd.handle.mpr ha)
  · cases hr : d.request.replay with
    | none =>
      unfold optionsOf MediaOpenDescriptor.mode at hm
      rw [hr] at hm
      exact absurd rfl hm
    | some range =>
      obtain ⟨hvalid, hudp, hback⟩ := hd.replay range hr
      refine ⟨?_, ?_, hback⟩
      · unfold optionsOf MediaOpenDescriptor.startNtpNs MediaOpenDescriptor.endNtpNs
        rw [hr]
        exact hvalid
      · change d.transport ≠ 2
        unfold MediaOpenDescriptor.transport
        revert hudp
        cases d.request.transport <;> decide
  · unfold optionsOf MediaOpenDescriptor.startNtpNs MediaOpenDescriptor.endNtpNs
    rw [hlive hm]
    exact ⟨rfl, rfl⟩

theorem mediaOptionsFixed_open (hd : Described d) (hb : (optionsOf d secrets).bounded)
    (hc : d.credentialHandle < 256 ^ 4) (ht : d.trustHandle < 256 ^ 4) (rest : Bytes) :
    mediaOptionsFixed (beBytes 1 d.mode ++ (beBytes 1 d.transport ++ (beBytes 1 d.trackMask ++ (beBytes 1 d.flags ++
      (beBytes 4 d.credentialHandle ++ (beBytes 4 d.trustHandle ++ (beBytes 8 d.startNtpNs ++ (beBytes 8 d.endNtpNs ++
      (d.numbers.flatMap (beBytes 4) ++ rest))))))))) secrets =
      { optionsOf d secrets with uri := [], targetRef := [], principal := [], localAddress := [], origins := [],
                                 redirects := [] } := by
  obtain ⟨hmode, _, htransport, _, htracks, hflags, _, _, _, _, _, hwire, _, hinflated, _, hdeadline, _, hqueue, _, hframes,
    _, hwidth, _, hheight, _, hdecoded, _, hcodecs⟩ := hb
  simp only [optionsOf, MEDIA_WIRE_MAX, MEDIA_INFLATED_MAX] at *
  have hrange : d.startNtpNs < 256 ^ 8 ∧ d.endNtpNs < 256 ^ 8 := by
    unfold MediaOpenDescriptor.startNtpNs MediaOpenDescriptor.endNtpNs
    cases hr : d.request.replay with
    | none => decide
    | some range => exact range_valid (hd.replay range hr).1
  unfold mediaOptionsFixed MediaOpenDescriptor.numbers
  simp only [List.flatMap_cons, List.flatMap_nil, List.append_assoc, List.append_nil, byteAt]
  simp (disch := first | decide | omega) only [readBE_skip, readBE_here, Nat.reduceSub]

/-- GLib takes the address for the interface that the session takes it for. -/
def SameAddress (glib : GLib) (node : Node) (address : String) : Prop :=
  unicastAddress node address → ∃ found, glib.inetAddress (utf8 address) = some found ∧ ¬found.isAny ∧ ¬found.isMulticast

theorem mediaOptionsParse_open (hg : Validates glib) (hd : Described d) (htarget : d.scope.targetRef ≠ "")
    (hprincipal : d.scope.principal ≠ "") (horigins : originList glib (d.trust.allowedOrigins.map utf8) true)
    (hredirects : originList glib ((d.trust.allowedRedirectOrigins.getD []).map utf8) false)
    (haddress : ∃ found, glib.inetAddress (utf8 d.request.localAddress) = some found ∧ ¬found.isAny ∧
      ¬found.isMulticast)
    (hallowed : mediaTargetAllowed glib (utf8 d.scope.uri) false (optionsOf d secrets))
    (h : encodeOpen d = .ok bytes) : mediaOptionsParse glib bytes secrets = some (optionsOf d secrets) := by
  simp only [encodeOpen, field_bind_ok] at h
  obtain ⟨ht, ⟨_, hc⟩, ⟨_, htrust⟩, h⟩ := h
  obtain ⟨numbers, hn, h⟩ := except_bind_ok h
  obtain ⟨rfl, _⟩ := mapM_same (fun a b hab => (field_ok.mp hab).2.symm) hn
  simp only [ipcString_bind_ok] at h
  obtain ⟨⟨h₁, l₁⟩, ⟨h₂, l₂⟩, ⟨h₃, l₃⟩, ⟨h₄, l₄⟩, h⟩ := h
  obtain ⟨origins, hos, h⟩ := except_bind_ok h
  obtain ⟨redirects, hrs, h⟩ := except_bind_ok h
  obtain rfl := bounded_ok h
  have hbounded := options_bounded hd ht secrets
  have hfixed := mediaOptionsFixed_open hd hbounded (show d.credentialHandle < 256 ^ 4 by omega)
    (show d.trustHandle < 256 ^ 4 by omega)
  have hlast := strings_framed hg hrs []
  rw [List.append_nil] at hlast
  obtain ⟨found, hfound, hany, hmulticast⟩ := haddress
  unfold mediaOptionsParse
  simp only [List.append_assoc]
  rw [hfixed, if_neg (by
    rw [not_or]
    constructor
    · simp only [List.length_append, length_beBytes, MediaOpenDescriptor.numbers, List.flatMap_cons, List.flatMap_nil]
      omega
    · exact not_not.mpr hbounded)]
  simp (disch := decide) only [MediaOpenDescriptor.numbers, List.flatMap_cons, List.flatMap_nil, List.append_assoc,
    List.append_nil, drop_beBytes, Nat.reduceSub, List.drop_zero, string_framed hg h₁ l₁, string_framed hg h₂ l₂,
    string_framed hg h₃ l₃, string_framed hg h₄ l₄, strings_framed hg hos, hlast, Option.bind_eq_bind, Option.bind_some]
  rw [if_neg (by
    rintro (hv | hr | he | he | he | he)
    · cases hv
    · exact hr rfl
    · exact utf8_ne htarget he
    · exact utf8_ne hprincipal he
    · rw [horigins] at he
      cases he
    · rw [hredirects] at he
      cases he)]
  simp only [optionsOf, hfound, Option.bind_some]
  rw [if_neg (by simp [hany, hmulticast])]
  exact if_pos hallowed

-- From the request to the worker

/-- What `authorizeMediaTarget` has established. -/
structure Authorized (node : Node) (uri : String) (transport : MediaTransport) (trust : MediaTrustPolicy)
    (target : String × Option String) : Prop where
  native : ∃ url, nativeMediaUrl node uri = .ok (url, target.1) ∧ (transport = .tlsInterleaved ↔ url.protocol = "rtsps:")
  allowed : target.1 ∈ trust.allowedOrigins
  tunnel : ∀ origin, target.2 = some origin → origin ≠ ""
  direct : target.2 = none → trust.tunnelAuthentication.any (·.isDigest) = false

theorem authorizeMediaTarget_ok (h : authorizeMediaTarget node uri transport trust = .ok target) :
    Authorized node uri transport trust target := by
  obtain ⟨⟨url, origin⟩, hn, h⟩ := except_bind_ok h
  rw [require_bind_ok] at h
  obtain ⟨⟨hallowed, _⟩, h⟩ := h
  rw [require_bind_ok] at h
  obtain ⟨hscheme, h⟩ := h
  cases hs : tunnelScheme transport with
  | some scheme =>
    rw [hs] at h
    obtain rfl := Except.ok.inj h
    refine ⟨⟨url, hn, hscheme⟩, hallowed, ?_, nofun⟩
    rintro found hfound rfl
    have hlen := congrArg String.length (Option.some.inj hfound)
    simp only [String.length_append] at hlen
    have hcolon : "://".length = 3 := rfl
    have hempty : "".length = 0 := rfl
    omega
  | none =>
    rw [hs] at h
    dsimp only at h
    rw [require_bind_ok] at h
    obtain ⟨hdigest, h⟩ := h
    obtain rfl := Except.ok.inj h
    exact ⟨⟨url, hn, hscheme⟩, hallowed, nofun, fun _ => Bool.not_eq_true _ ▸ hdigest⟩

theorem mediaTargetAllowed_open (hs : SameParts glib node d.scope.uri)
    (hn : nativeMediaUrl node d.scope.uri = .ok (url, origin)) (ho : origin ∈ d.trust.allowedOrigins)
    (hscheme : d.request.transport = .tlsInterleaved ↔ url.protocol = "rtsps:")
    (hcredential : secrets.credentialHandle = 0 ∨ secrets.origin = utf8 origin) :
    mediaTargetAllowed glib (utf8 d.scope.uri) false (optionsOf d secrets) := by
  have hurl := nativeMediaUrl_ok hn
  have htransport : d.transport = 5 ↔ d.request.transport = .tlsInterleaved := by
    unfold MediaOpenDescriptor.transport
    cases d.request.transport <;> decide
  have hprotocol : utf8 url.protocol ++ utf8 "//" = if d.transport = 5 then utf8 "rtsps://" else utf8 "rtsp://" := by
    rw [← utf8_append]
    rcases hurl.scheme with hr | hr
    · rw [if_neg (by
        rw [htransport, hscheme, hr]
        decide), hr]
      rfl
    · rw [if_pos (htransport.mpr (hscheme.mpr hr)), hr]
      rfl
  unfold mediaTargetAllowed
  rw [mediaOrigin_native hs hn]
  simp only [Bool.not_false, Bool.true_or, Bool.and_true, Bool.and_eq_true, Bool.or_eq_true, decide_eq_true_eq,
    List.contains_eq_mem, List.isPrefixOf_iff_prefix]
  refine ⟨⟨?_, List.mem_map_of_mem ho⟩, hcredential.imp_right Eq.symm⟩
  change (if d.transport = 5 then utf8 "rtsps://" else utf8 "rtsp://") <+: utf8 origin
  rw [← hprotocol, hurl.origin]
  unfold Url.nativeOrigin
  simp only [utf8_append, List.append_assoc]
  exact ⟨_, List.append_assoc _ _ _⟩

theorem password_ok (h : password value scope origin auth = .ok result) :
    (auth = .none → result = none) ∧
      ∀ p, result = some p → p.origin = origin ∧ p.username ≠ "" ∧ ∃ allow, auth = .digest p.realm allow := by
  cases auth with
  | none =>
    unfold password at h
    rw [require_bind_ok] at h
    obtain rfl := Except.ok.inj h.2
    exact ⟨fun _ => rfl, nofun⟩
  | digest realm allow =>
    refine ⟨nofun, ?_⟩
    cases value with
    | none => cases h
    | some value =>
      unfold password at h
      dsimp only at h
      rw [require_bind_ok] at h
      obtain ⟨_, h⟩ := h
      obtain ⟨username, hu, h⟩ := except_bind_ok h
      obtain ⟨password, _, h⟩ := except_bind_ok h
      obtain rfl := Except.ok.inj h
      obtain ⟨rfl, hne, _⟩ := mediaText_ok hu
      intro p hp
      obtain rfl := Option.some.inj hp
      exact ⟨rfl, by simpa using hne, allow, rfl⟩

theorem password_given (h : password value scope origin (.digest realm allow) = .ok result) : result.isSome := by
  cases value with
  | none => cases h
  | some value =>
    unfold password at h
    dsimp only at h
    rw [require_bind_ok] at h
    obtain ⟨_, h⟩ := h
    obtain ⟨username, hu, h⟩ := except_bind_ok h
    obtain ⟨password, _, h⟩ := except_bind_ok h
    obtain rfl := Except.ok.inj h
    rfl

theorem mask_receives {tracks : MediaTrackRequest} (h : tracks.backchannel = none) : tracks.mask &&& 8 = 0 := by
  unfold MediaTrackRequest.mask
  rw [h]
  cases tracks.video.isSome <;> cases tracks.audio.isSome <;> cases tracks.metadata.getD false <;> rfl

/-- What `MediaExecutor.open` hands to the session. -/
structure Opened (node : Node) (context : MediaConsumerContext) (request : OpenMediaRequest) (uri : String)
    (d : MediaOpenDescriptor) (material : MediaSecurityMaterial) : Prop where
  described : Described d
  whole : Whole d material
  authorized : Authorized node uri request.transport context.trust (d.scope.origin, d.scope.tunnelOrigin)
  carried : d.request = request ∧ d.trust = context.trust ∧ d.scope.uri = uri

theorem openDescriptor_ok (hbound : Bound node context) (hasked : Requested node request validated)
    (hcredential : 0 < credentialHandle)
    (h : openDescriptor node thingId context request validated uri resolved credentialHandle trustHandle =
      .ok (d, material)) : Opened node context request uri d material := by
  obtain ⟨target, htarget, h⟩ := except_bind_ok h
  obtain ⟨found, hmaterial, h⟩ := except_bind_ok h
  obtain ⟨rfl, rfl⟩ := Prod.mk.inj (Except.ok.inj h)
  have hauthorized := authorizeMediaTarget_ok htarget
  unfold validateMediaSecurity at hmaterial
  rw [require_bind_ok] at hmaterial
  obtain ⟨_, hmaterial⟩ := hmaterial
  obtain ⟨native, hnative, hmaterial⟩ := except_bind_ok hmaterial
  obtain ⟨tunnel, htunnel, hmaterial⟩ := except_bind_ok hmaterial
  obtain ⟨caPem, _, hmaterial⟩ := except_bind_ok hmaterial
  obtain rfl := Except.ok.inj hmaterial
  have hhandle : (if (scopeOf thingId context request uri target).authentication = .none then 0 else credentialHandle) = 0 ↔
      (scopeOf thingId context request uri target).authentication = .none := by
    split
    · simp_all
    · simp_all [hcredential.ne']
  refine ⟨⟨hasked.transport, hasked.codecs, hhandle, fun range hr => ?_, hasked.limits⟩,
    ⟨hbound.targetRef, hbound.principal, fun hc => ?_, fun hc => ?_, fun p hp => ?_⟩, hauthorized, rfl, rfl, rfl⟩
  · obtain ⟨hvalid, hudp, hback⟩ := hasked.replay range hr
    exact ⟨hvalid, hudp, hasked.tracks ▸ mask_receives hback⟩
  · cases hauth : context.trust.authentication with
    | none => exact absurd (hhandle.mpr hauth) hc
    | digest realm allow =>
      rw [show (scopeOf thingId context request uri target).authentication = .digest realm allow from hauth] at hnative
      obtain ⟨p, rfl⟩ := Option.isSome_iff_exists.mp (password_given hnative)
      obtain ⟨_, huser, allow', hd⟩ := (password_ok hnative).2 p rfl
      obtain ⟨hrealm, _⟩ := MediaAuthentication.digest.inj hd
      exact ⟨p, rfl, hrealm ▸ hbound.realm realm allow hauth, huser⟩
  · exact (password_ok hnative).1 (hhandle.mp hc)
  · obtain ⟨horigin, _, allow, hd⟩ := (password_ok htunnel).2 p hp
    cases ht : target.2 with
    | none =>
      unfold scopeOf at hd
      rw [ht] at hd
      cases hd
    | some origin =>
      unfold scopeOf at hd horigin
      rw [ht] at hd horigin
      refine ⟨?_, ?_⟩
      · rw [horigin]
        exact hauthorized.tunnel origin ht
      · cases htrust : context.trust.tunnelAuthentication with
        | none =>
          rw [htrust] at hd
          cases hd
        | some auth =>
          rw [htrust] at hd
          exact hbound.tunnelRealm p.realm allow (htrust.trans (congrArg some hd))

/-- What the session opens the worker accepts: both descriptors are parsed to
what they were made of, whether SECURITY is read first or OPEN, and bound. -/
theorem open_accepted (hg : Validates glib) (hu : SameParts glib node uri)
    (ho : ∀ origin ∈ context.trust.allowedOrigins, SameParts glib node origin)
    (ha : SameAddress glib node request.localAddress) (hcontext : consume node given = .ok context)
    (hrequest : validateMediaRequest node request = .ok validated) (hcredential : 0 < credentialHandle)
    (hopen : openDescriptor node thingId context request validated uri resolved credentialHandle trustHandle =
      .ok (d, material)) (hopened : encodeOpen d = .ok opened)
      (hsecured : encodeSecurity d material = .ok secured) :
    mediaSecretsParse glib secured = some (secretsOf d material) ∧
      mediaOptionsParse glib opened {} = some (optionsOf d {}) ∧
      mediaOptionsParse glib opened (secretsOf d material) = some (optionsOf d (secretsOf d material)) ∧
      mediaOptionsBind glib (optionsOf d (secretsOf d material)) := by
  have hbound := consume_bound hcontext
  have hasked := validateMediaRequest_ok hrequest
  have h := openDescriptor_ok hbound hasked hcredential hopen
  obtain ⟨rfl, htrust, rfl⟩ := h.carried
  obtain ⟨url, hurl, hscheme⟩ := h.authorized.native
  have horigins : originList glib (d.trust.allowedOrigins.map utf8) true := by
    rw [htrust]
    exact originList_native (fun _ => hbound.origins) fun origin hin => ⟨ho origin hin, hbound.exact origin hin⟩
  have hredirects : originList glib ((d.trust.allowedRedirectOrigins.getD []).map utf8) false := by
    rw [htrust]
    have hsame : ∀ origin ∈ context.trust.allowedRedirectOrigins.getD [],
        SameParts glib node origin ∧ ∃ url, nativeMediaUrl node origin = .ok (url, origin) := fun origin hin =>
      ⟨ho origin (hbound.redirects origin hin), hbound.exact origin (hbound.redirects origin hin)⟩
    exact originList_native nofun hsame
  have hallowed : d.scope.origin ∈ d.trust.allowedOrigins := htrust ▸ h.authorized.allowed
  have hparse (secrets : MediaSecrets) (hs : secrets.credentialHandle = 0 ∨ secrets.origin = utf8 d.scope.origin) :
      mediaOptionsParse glib opened secrets = some (optionsOf d secrets) :=
    mediaOptionsParse_open hg h.described h.whole.targetRef h.whole.principal horigins hredirects (ha hasked.address)
      (mediaTargetAllowed_open hu hurl hallowed hscheme hs) hopened
  refine ⟨mediaSecretsParse_security hg h.whole hsecured, hparse {} (.inl rfl), hparse _ (.inr rfl), ?_⟩
  unfold mediaOptionsBind
  rw [show mediaOrigin glib (optionsOf d (secretsOf d material)).uri false = some (utf8 d.scope.origin) from
    mediaOrigin_native hu hurl]
  simp [optionsOf, secretsOf]

-- A camera

def cameraGLib : GLib where
  utf8Validate _ := true
  uriParse _ := some { scheme := utf8 "rtsp", userinfo := none, host := some (utf8 "192.0.2.5"), port := 554, fragment := none }
  inetAddress _ := some ⟨false, false⟩

def cameraNode : Node where
  url href := some { protocol := if "http".toList.isPrefixOf href.toList then "http:" else "rtsp:", hostname := "192.0.2.5"
                     port := if "http".toList.isPrefixOf href.toList then none else some 554, href }
  isIP _ := 4

def viewing : OpenMediaRequest :=
  { action := "GetStreamUri", transport := .tcpInterleaved, tracks := { video := some [.H264] }, localAddress := "192.0.2.9" }

def viewer : MediaConsumerContext :=
  { principal := "operator", targetRef := "camera"
    trust := { serviceTargets := ["http://192.0.2.5/onvif"], allowedOrigins := ["rtsp://192.0.2.5:554"]
               allowedRedirectOrigins := some [], transports := [.tcpInterleaved], authentication := .none } }

def viewed : MediaOpenDescriptor where
  request := viewing
  scope := { thingId := "urn:camera", targetRef := "camera", principal := "operator", uri := "rtsp://192.0.2.5:554/live"
             origin := "rtsp://192.0.2.5:554", transport := .tcpInterleaved, authentication := .none }
  trust := viewer.trust
  limits := ⟨2097152, 8388608, 2000, 33554432, 64, 8, 4096, 2160, 33554432, 6000, 3000, 10000, 2000, 131072⟩
  trackMask := 1
  codecMask := 2
  credentialHandle := 0
  trustHandle := 9

def viewedMaterial : MediaSecurityMaterial :=
  { thingId := "urn:camera", targetRef := "camera", principal := "operator", origin := "rtsp://192.0.2.5:554" }

theorem nativeMediaUrl_url (h : nativeMediaUrl node uri = .ok (url, origin)) : node.url uri = some url := by
  unfold nativeMediaUrl at h
  rw [require_bind_ok] at h
  cases hu : node.url uri with
  | none =>
    rw [hu] at h
    cases h.2
  | some found =>
    rw [hu] at h
    dsimp only at h
    rw [require_bind_ok] at h
    rw [(Prod.mk.inj (Except.ok.inj h.2.2)).1]

theorem camera_parts (hu : "http".toList.isPrefixOf uri.toList = false) : SameParts cameraGLib cameraNode uri := by
  intro url origin h
  obtain rfl := Option.some.inj (nativeMediaUrl_url h)
  simp only [hu, Bool.false_eq_true, if_false]
  refine ⟨_, utf8 "192.0.2.5", rfl, by decide +kernel, rfl, rfl, rfl, by decide +kernel, ?_⟩
  rintro port hp
  exact Int.ofNat_inj.mpr (Option.some.inj hp)

theorem open_accepted_camera : ∃ opened secured, encodeOpen viewed = .ok opened ∧
    encodeSecurity viewed viewedMaterial = .ok secured ∧
    mediaSecretsParse cameraGLib secured = some (secretsOf viewed viewedMaterial) ∧
    mediaOptionsParse cameraGLib opened (secretsOf viewed viewedMaterial) =
      some (optionsOf viewed (secretsOf viewed viewedMaterial)) := by
  have hopen : (encodeOpen viewed).isOk := by decide +kernel
  have hsecure : (encodeSecurity viewed viewedMaterial).isOk := by decide +kernel
  cases ho : encodeOpen viewed with
  | error e =>
    rw [ho] at hopen
    cases hopen
  | ok opened =>
    cases hs : encodeSecurity viewed viewedMaterial with
    | error e =>
      rw [hs] at hsecure
      cases hsecure
    | ok secured =>
      have hgiven : consume cameraNode viewer = .ok viewer := by decide +kernel
      have hasked : validateMediaRequest cameraNode viewing = .ok ⟨viewed.limits, 1, 2⟩ := by decide +kernel
      have hviewed : openDescriptor cameraNode "urn:camera" viewer viewing ⟨viewed.limits, 1, 2⟩
          "rtsp://192.0.2.5:554/live" (fun _ => viewedMaterial) 7 9 = .ok (viewed, viewedMaterial) := by decide +kernel
      have horigin : ∀ origin ∈ viewer.trust.allowedOrigins, SameParts cameraGLib cameraNode origin := by
        intro origin hin
        obtain rfl := List.mem_singleton.mp hin
        exact camera_parts (by decide)
      have haddress : SameAddress cameraGLib cameraNode viewing.localAddress := fun _ => ⟨_, rfl, nofun, nofun⟩
      have h := open_accepted (fun _ _ => rfl) (camera_parts (by decide)) horigin haddress hgiven hasked (by decide)
        hviewed ho hs
      exact ⟨opened, secured, rfl, rfl, h.1, h.2.2.1⟩

end WotAv.System
