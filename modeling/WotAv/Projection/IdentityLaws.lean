import WotAv.Projection.Identity

/-!
# Things are bound to their endpoints

A Thing that was projected is accepted with the endpoint reference of its
snapshot, where that is a logical endpoint; and what is accepted under one id
has one endpoint and one native identity.
-/

namespace WotAv.Projection

open WotAv.Lib
open WotAv.Lib.Json (get Same)
open WotAv.Binding (OnvifError WSA_NS)
open WotAv.Catalog (JsonValue JsonRecord)

-- Equal keys

theorem same_cons {a b : JsonValue} {as bs : List JsonValue} (h : Same (.array (a :: as)) (.array (b :: bs))) :
    Same a b ∧ Same (.array as) (.array bs) := by
  simp only [Same, Json.canonical, Json.canonicalItems, Json.array.injEq, List.cons.injEq] at h ⊢
  exact h

theorem same_string {a b : String} (h : Same (.string a : JsonValue) (.string b)) : a = b := by
  simpa [Same, Json.canonical] using h

section
variable {URL : String → Option Url} {sha256 : String → String}

theorem digest_inj (hsha : Function.Injective sha256) {a b : JsonValue} (h : digest sha256 a = digest sha256 b) : Same a b :=
  Json.canonicalJson_inj.mp (hsha h)

theorem append_inj {a b c : String} (h : a ++ b = a ++ c) : b = c := by
  have := congrArg String.toList h
  simp only [String.toList_append, List.append_cancel_left_eq] at this
  exact String.toList_injective this

theorem device_ne_resource (a b : String) : "urn:onvif:device:" ++ a ≠ "urn:onvif:resource:" ++ b := by
  intro h
  have := congrArg String.toList h
  simp at this

theorem expectedId_inj (hsha : Function.Injective sha256) {a a' : String} {p p' : List JsonValue}
    {r r' : Option (List JsonValue)} (h : expectedId sha256 a p r = expectedId sha256 a' p' r') :
    a = a' ∧ Same (.array p) (.array p') ∧ r.isSome = r'.isSome ∧
      ∀ k k', r = some k → r' = some k' → Same (.array k) (.array k') := by
  cases r with
  | none =>
    cases r' with
    | none =>
      obtain ⟨ha, hrest⟩ := same_cons (digest_inj hsha (append_inj h))
      exact ⟨same_string ha, (same_cons hrest).1, rfl, nofun⟩
    | some k' => exact absurd h (device_ne_resource _ _)
  | some k =>
    cases r' with
    | none => exact absurd h.symm (device_ne_resource _ _)
    | some k' =>
      obtain ⟨ha, hrest⟩ := same_cons (digest_inj hsha (append_inj h))
      obtain ⟨hp, hk⟩ := same_cons hrest
      exact ⟨same_string ha, hp, rfl, by rintro _ _ ⟨⟩ ⟨⟩; exact hk⟩

-- What is accepted

theorem demand_bind_ok {α : Type} {p : Prop} [Decidable p] {message : String} {k : Unit → Except OnvifError α} {a : α} :
    (demand p message >>= k) = .ok a ↔ p ∧ k () = .ok a := Binding.require_bind_ok

structure NativeIdentity where
  serviceNamespace : String
  kind : String
  parentTokens : List JsonValue
  token : String

def NativeIdentity.key (identity : NativeIdentity) : List JsonValue :=
  [.string identity.serviceNamespace, .string identity.kind, .array identity.parentTokens, .string identity.token]

def nativeIdentity (resource : JsonValue) : Option NativeIdentity := do
  let members ← resource.asRecord
  let serviceNamespace ← textOf "serviceNamespace" members
  let kind ← textOf "kind" members
  let parents ← (get "parentTokens" members).bind Json.asArray
  let token ← textOf "token" members
  return ⟨serviceNamespace, kind, parents, token⟩

theorem isToken_some {value : Option JsonValue} (h : isToken value) : ∃ token, value = some (.string token) := by
  unfold isToken at h
  cases value with
  | none => cases h
  | some value =>
    cases value <;> first | exact ⟨_, rfl⟩ | cases h

theorem resourceKey_ok {address : String} {resource : JsonValue} {key : List JsonValue}
    (h : resourceKey address resource = .ok key) :
    ∃ identity, nativeIdentity resource = some identity ∧ key = identity.key := by
  unfold resourceKey at h
  split at h
  · rename_i members
    obtain ⟨⟨-, hs, hk, ht⟩, h⟩ := demand_bind_ok.mp h
    obtain ⟨s, hs⟩ := isToken_some hs
    obtain ⟨k, hk⟩ := isToken_some hk
    obtain ⟨t, ht⟩ := isToken_some ht
    rw [hs, hk, ht] at h
    split at h
    · rename_i s' k' parents t' h₁ h₂ hp h₃
      cases h₁
      cases h₂
      cases h₃
      obtain ⟨-, h⟩ := demand_bind_ok.mp h
      cases h
      refine ⟨⟨s, k, parents, t⟩, ?_, rfl⟩
      simp [nativeIdentity, Json.asRecord, textOf, hs, hk, ht, hp, Json.asString, Json.asArray]
    · cases h
  · cases h

theorem projectedEndpointReference_ok {d : JsonRecord} {r : LogicalEndpointReference}
    (h : projectedEndpointReference URL sha256 d = .ok (some r)) :
    ∃ resource, (get "onvif:resourceIdentity" d).mapM (resourceKey r.address) = .ok resource ∧
      textOf "id" d = some (expectedId sha256 r.address r.referenceProperties resource) := by
  unfold projectedEndpointReference at h
  split at h
  · cases h
  split at h <;> [skip; cases h]
  split at h <;> [skip; cases h]
  obtain ⟨-, h⟩ := demand_bind_ok.mp h
  split at h <;> [skip; cases h]
  obtain ⟨_, -, h⟩ := except_bind_ok h
  split at h <;> [skip; cases h]
  obtain ⟨properties, hp, h⟩ := except_bind_ok h
  obtain ⟨parameters, -, h⟩ := except_bind_ok h
  obtain ⟨-, h⟩ := demand_bind_ok.mp h
  obtain ⟨resource, hresource, h⟩ := except_bind_ok h
  obtain ⟨hid, h⟩ := demand_bind_ok.mp h
  cases h
  exact ⟨resource, hresource, hid⟩

-- What is projected

theorem forM_intro {ε α : Type} {f : α → Except ε Unit} {l : List α} (h : ∀ a ∈ l, f a = .ok ()) : l.forM f = .ok () := by
  induction l with
  | nil => rfl
  | cons b l ih =>
    have hb : f b = .ok () := h b List.mem_cons_self
    change (f b >>= fun _ => l.forM f) = .ok ()
    rw [hb]
    exact ih fun a ha => h a (List.mem_cons_of_mem _ ha)

theorem demand_true {α : Type} {p : Prop} [Decidable p] {message : String} {k : Unit → Except OnvifError α} (h : p) :
    (demand p message >>= k) = k () := by
  unfold demand Binding.require
  rw [if_pos h]
  rfl

theorem referenceHeaders_headers (headers : Headers) : referenceHeaders (some (.array headers.1)) = .ok headers.1 := by
  simp only [referenceHeaders, Option.bind_some, Json.asArray]
  rw [demand_true headers.2.1, forM_intro headers.2.2]
  rfl

theorem get_append (key : String) (a b : JsonRecord) : get key (a ++ b) = (get key a).or (get key b) := by
  simp only [Json.get, List.find?_append]
  cases a.find? (·.1 = key) <;> simp

theorem isToken_of {max : Nat} (hmax : max ≤ 4096) {value : Option JsonValue} {token : Text max}
    (h : value.bind Json.asString = some token.1) : isToken value := by
  unfold isToken
  rw [h]
  simpa using ⟨token.2.1, token.2.2.trans hmax⟩

theorem isParentToken_of {value : JsonValue} (h : IsParent value) : isParentToken value := by
  obtain ⟨members, hrecord, hall, ⟨kind, hkind⟩, token, htoken⟩ := h
  have hkind := isToken_of (by decide) hkind
  have htoken := isToken_of (by decide) htoken
  simp only [isParentToken, hrecord, Option.any_some, hall, hkind, htoken, Bool.and_self]

theorem resourceKey_projected (s : DeviceSnapshot) (r : Resource) :
    resourceKey s.address.1 (.object (resourceIdentity s r)) = .ok [.string r.serviceNamespace.1, .string r.kind.1,
      .array r.parentTokens.1, .string r.token.1] := by
  have hs : isToken (some (.string r.serviceNamespace.1)) := isToken_of (Nat.le_refl _) rfl
  have hk : isToken (some (.string r.kind.1)) := isToken_of (by decide) rfl
  have ht : isToken (some (.string r.token.1)) := isToken_of (Nat.le_refl _) rfl
  have hp : r.parentTokens.1.all isParentToken := List.all_eq_true.mpr fun p hp => isParentToken_of (r.parents p hp)
  have hget : get "epr" (resourceIdentity s r) = some (.string s.address.1) ∧
      get "serviceNamespace" (resourceIdentity s r) = some (.string r.serviceNamespace.1) ∧
      get "kind" (resourceIdentity s r) = some (.string r.kind.1) ∧
      get "parentTokens" (resourceIdentity s r) = some (.array r.parentTokens.1) ∧
      get "token" (resourceIdentity s r) = some (.string r.token.1) := ⟨rfl, rfl, rfl, rfl, rfl⟩
  obtain ⟨he, hs', hk', hp', ht'⟩ := hget
  simp only [resourceKey, textOf, he, hs', hk', hp', ht']
  rw [demand_true ⟨rfl, hs, hk, ht⟩, demand_true ⟨r.parentTokens.2, hp⟩]
  rfl

def Permitted (s : DeviceSnapshot) (addressingNamespace : String) : Prop :=
  addressingNamespace = WSA_2004_NS ∨ addressingNamespace = WSA_NS ∧ s.referenceProperties.1 = []

theorem projectedEndpointReference_attach {td : JsonRecord} {s : DeviceSnapshot} {parameters : Headers}
    {addressingNamespace : String} {k : Option (List JsonValue)} (hnone : get "onvif:discovery" td = none)
    (hparameters : s.referenceParameters = some parameters) (hns : Permitted s addressingNamespace)
    (hresource : (get "onvif:resourceIdentity" td).mapM (resourceKey s.address.1) = .ok k)
    (hid : textOf "id" td = some (expectedId sha256 s.address.1 s.referenceProperties.1 k)) :
    projectedEndpointReference URL sha256 (attachDiscovery td (endpointReference s) addressingNamespace) =
      (logicalUrl URL s.address.1).map fun _ =>
        some ⟨s.address.1, addressingNamespace, s.referenceProperties.1, parameters.1⟩ := by
  have hdiscovery : get "onvif:discovery" (attachDiscovery td (endpointReference s) addressingNamespace) =
      some (.object [("endpointReference", .object (endpointReference s)),
        ("addressingNamespace", .string addressingNamespace)]) := by
    rw [attachDiscovery, get_append, hnone]
    rfl
  have hother : ∀ key, key ≠ "onvif:discovery" →
      get key (attachDiscovery td (endpointReference s) addressingNamespace) = get key td := by
    intro key hkey
    rw [attachDiscovery, get_append]
    simp [Json.get, Ne.symm hkey]
  have hepr : endpointReference s = [("address", .string s.address.1), ("referenceProperties", .array s.referenceProperties.1),
      ("referenceParameters", .array parameters.1)] := by
    simp [endpointReference, hparameters]
  have hnamespace : addressingNamespace = WSA_NS ∨ addressingNamespace = WSA_2004_NS := by
    rcases hns with h | h
    · exact .inr h
    · exact .inl h.1
  have hproperties : addressingNamespace = WSA_NS → s.referenceProperties.1 = [] := by
    rintro rfl
    rcases hns with h | h
    · exact absurd h (by decide)
    · exact h.2
  unfold projectedEndpointReference
  rw [hdiscovery]
  simp only [Json.asRecord]
  have h₁ : (get "endpointReference" [("endpointReference", Json.object (endpointReference s)),
      ("addressingNamespace", .string addressingNamespace)]).bind Json.asRecord = some (endpointReference s) := rfl
  have h₂ : (textOf "addressingNamespace" [("endpointReference", Json.object (endpointReference s)),
      ("addressingNamespace", .string addressingNamespace)]).filter (fun name => name = WSA_NS ∨ name = WSA_2004_NS) =
      some addressingNamespace := by
    rw [show textOf "addressingNamespace" _ = some addressingNamespace from rfl]
    simp [Option.filter, hnamespace]
  have h₃ : textOf "address" (endpointReference s) = some s.address.1 := rfl
  have h₄ : get "referenceProperties" (endpointReference s) = some (.array s.referenceProperties.1) := rfl
  have h₅ : get "referenceParameters" (endpointReference s) = some (.array parameters.1) := by rw [hepr]; rfl
  have hallowed : (endpointReference s).all fun member =>
      ["address", "referenceProperties", "referenceParameters"].contains member.1 := by simp [hepr]
  have hid' : textOf "id" (attachDiscovery td (endpointReference s) addressingNamespace) = textOf "id" td := by
    simp only [textOf, hother "id" (by decide)]
  simp only [Json.asRecord, h₁]
  rw [demand_true hallowed]
  simp only [h₂, h₃, h₄, h₅, referenceHeaders_headers, hother "onvif:resourceIdentity" (by decide), hresource, hid']
  cases hurl : logicalUrl URL s.address.1 with
  | error e => rfl
  | ok url =>
    change (demand _ _ >>= _) = _
    rw [demand_true hproperties]
    change (demand _ _ >>= _) = _
    rw [demand_true hid]
    rfl

theorem mapM_ok {α β : Type} {f : α → Except OnvifError β} {l : List α} {bs : List β} (h : l.mapM f = .ok bs) :
    ∀ b ∈ bs, ∃ a ∈ l, f a = .ok b := by
  induction l generalizing bs with
  | nil =>
    cases h
    simp
  | cons a l ih =>
    rw [List.mapM_cons] at h
    obtain ⟨b, hb, h⟩ := except_bind_ok h
    obtain ⟨bs', hbs, h⟩ := except_bind_ok h
    cases h
    intro b' hb'
    rcases List.mem_cons.mp hb' with rfl | hb'
    · exact ⟨a, List.mem_cons_self, hb⟩
    · obtain ⟨a', ha', hf⟩ := ih hbs b' hb'
      exact ⟨a', List.mem_cons_of_mem _ ha', hf⟩

theorem mem_sortByKey {α : Type} {entries : List (String × α)} {entry : String × α} :
    entry ∈ sortByKey entries ↔ entry ∈ entries := (List.perm_insertionSort ..).mem_iff

/-- The Thing Descriptions of a projection: that of the device, and those of
the resources, each with the id of its key. -/
theorem project_ok {projector : Projector} {value : JsonValue} {tds : List JsonRecord} {s : DeviceSnapshot}
    (hs : assertDeviceSnapshot URL value = .ok s) (h : project URL sha256 projector value = .ok tds) :
    ∀ td ∈ tds, (∃ values, td = finishTd sha256 (deviceTd values (deviceThingId sha256 s))) ∨
      ∃ values, ∃ r ∈ s.resources, td = finishTd sha256 (resourceTd values (resourceThingId sha256 s r) s r) := by
  unfold project at h
  obtain ⟨s', hs', h⟩ := except_bind_ok h
  obtain rfl := Except.ok.inj (hs.symm.trans hs')
  obtain ⟨_, -, h⟩ := except_bind_ok h
  obtain ⟨entries, hentries, h⟩ := except_bind_ok h
  obtain ⟨device, hdevice, h⟩ := except_bind_ok h
  obtain ⟨resources, hresources, h⟩ := except_bind_ok h
  cases h
  intro td htd
  obtain ⟨⟨id, td⟩, hmem, rfl⟩ := List.mem_map.mp htd
  rcases List.mem_append.mp (mem_sortByKey.mp hmem) with hmem | hmem
  · left
    unfold deviceThing at hdevice
    split at hdevice
    · obtain ⟨values, -, hdevice⟩ := except_bind_ok hdevice
      cases hdevice
      cases List.mem_singleton.mp hmem
      exact ⟨values, rfl⟩
    · cases hdevice
      cases hmem
  · right
    obtain ⟨⟨id', r⟩, hentry, hr⟩ := mapM_ok hresources _ hmem
    obtain ⟨values, -, hr⟩ := except_bind_ok hr
    cases hr
    obtain ⟨-, hentries⟩ := assert_bind_ok.mp hentries
    cases hentries
    obtain ⟨r', hr', heq⟩ := List.mem_map.mp (mem_sortByKey.mp hentry)
    cases heq
    exact ⟨values, r, hr', rfl⟩

theorem device_members (values : String → JsonValue) (id : String) :
    get "onvif:discovery" (finishTd sha256 (deviceTd values id)) = none ∧
      get "onvif:resourceIdentity" (finishTd sha256 (deviceTd values id)) = none ∧
      textOf "id" (finishTd sha256 (deviceTd values id)) = some id := ⟨rfl, rfl, rfl⟩

theorem resource_members (values : String → JsonValue) (id : String) (s : DeviceSnapshot) (r : Resource) :
    get "onvif:discovery" (finishTd sha256 (resourceTd values id s r)) = none ∧
      get "onvif:resourceIdentity" (finishTd sha256 (resourceTd values id s r)) = some (.object (resourceIdentity s r)) ∧
      textOf "id" (finishTd sha256 (resourceTd values id s r)) = some id := ⟨rfl, rfl, rfl⟩

theorem project_accepted {projector : Projector} {value : JsonValue} {tds : List JsonRecord} {s : DeviceSnapshot}
    {parameters : Headers} {addressingNamespace : String} (hs : assertDeviceSnapshot URL value = .ok s)
    (h : project URL sha256 projector value = .ok tds) (hns : Permitted s addressingNamespace) {td : JsonRecord}
    (htd : td ∈ tds) :
    projectedEndpointReference URL sha256 (attachDiscovery td
        (endpointReference { s with referenceParameters := some parameters }) addressingNamespace) =
      (logicalUrl URL s.address.1).map fun _ =>
        some ⟨s.address.1, addressingNamespace, s.referenceProperties.1, parameters.1⟩ := by
  rcases project_ok hs h td htd with ⟨values, rfl⟩ | ⟨values, r, hr, rfl⟩
  · obtain ⟨hnone, hresource, hid⟩ := @device_members sha256 values (deviceThingId sha256 s)
    refine projectedEndpointReference_attach (k := none) hnone rfl hns ?_ hid
    rw [hresource]
    rfl
  · obtain ⟨hnone, hresource, hid⟩ := @resource_members sha256 values (resourceThingId sha256 s r) s r
    refine projectedEndpointReference_attach (k := some _) hnone rfl hns ?_ hid
    rw [hresource, Option.mapM_some]
    simp only [resourceKey_projected]
    rfl

/-- Two accepted Thing Descriptions say the same of endpoint and resource. -/
structure SameThing (d d' : JsonRecord) (r r' : LogicalEndpointReference) : Prop where
  address : r.address = r'.address
  properties : Same (.array r.referenceProperties) (.array r'.referenceProperties)
  kind : (get "onvif:resourceIdentity" d).isSome = (get "onvif:resourceIdentity" d').isSome
  resource : ∀ v v', get "onvif:resourceIdentity" d = some v → get "onvif:resourceIdentity" d' = some v' →
    ∃ i i', nativeIdentity v = some i ∧ nativeIdentity v' = some i' ∧ i.serviceNamespace = i'.serviceNamespace ∧
      i.kind = i'.kind ∧ Same (.array i.parentTokens) (.array i'.parentTokens) ∧ i.token = i'.token

theorem same_key {i i' : NativeIdentity} (h : Same (.array i.key) (.array i'.key)) :
    i.serviceNamespace = i'.serviceNamespace ∧ i.kind = i'.kind ∧
      Same (.array i.parentTokens) (.array i'.parentTokens) ∧ i.token = i'.token := by
  obtain ⟨hs, h⟩ := same_cons h
  obtain ⟨hk, h⟩ := same_cons h
  obtain ⟨hp, h⟩ := same_cons h
  exact ⟨same_string hs, same_string hk, hp, same_string (same_cons h).1⟩

theorem accepted_same (hsha : Function.Injective sha256) {d d' : JsonRecord} {r r' : LogicalEndpointReference}
    (h : projectedEndpointReference URL sha256 d = .ok (some r))
    (h' : projectedEndpointReference URL sha256 d' = .ok (some r')) (hid : textOf "id" d = textOf "id" d') :
    SameThing d d' r r' := by
  obtain ⟨resource, hresource, hkey⟩ := projectedEndpointReference_ok h
  obtain ⟨resource', hresource', hkey'⟩ := projectedEndpointReference_ok h'
  obtain ⟨ha, hp, hkind, hk⟩ := expectedId_inj hsha (Option.some.inj (hkey.symm.trans (hid.trans hkey')))
  have hsome : ∀ {a : String} {v : Option JsonValue} {o : Option (List JsonValue)},
      v.mapM (resourceKey a) = .ok o → o.isSome = v.isSome ∧ ∀ x, v = some x → ∃ k, o = some k ∧ resourceKey a x = .ok k := by
    intro a v o hv
    cases v with
    | none =>
      cases hv
      exact ⟨rfl, nofun⟩
    | some x =>
      rw [Option.mapM_some] at hv
      obtain ⟨k, hx, hv⟩ := except_bind_ok hv
      cases hv
      exact ⟨rfl, by rintro _ ⟨⟩; exact ⟨k, rfl, hx⟩⟩
  obtain ⟨hs, hread⟩ := hsome hresource
  obtain ⟨hs', hread'⟩ := hsome hresource'
  refine ⟨ha, hp, hs.symm.trans (hkind.trans hs'), fun v v' hv hv' => ?_⟩
  obtain ⟨k, hk₁, hx⟩ := hread v hv
  obtain ⟨k', hk₁', hx'⟩ := hread' v' hv'
  obtain ⟨i, hi, rfl⟩ := resourceKey_ok hx
  obtain ⟨i', hi', rfl⟩ := resourceKey_ok hx'
  exact ⟨i, i', hi, hi', same_key (hk _ _ hk₁ hk₁')⟩

def Resource.identity (r : Resource) : NativeIdentity := ⟨r.serviceNamespace.1, r.kind.1, r.parentTokens.1, r.token.1⟩

def SameEndpoint (s s' : DeviceSnapshot) : Prop :=
  s.address.1 = s'.address.1 ∧ Same (.array s.referenceProperties.1) (.array s'.referenceProperties.1)

def noHeaders : Headers := ⟨[], by simp⟩

def completeReference (s : DeviceSnapshot) : JsonRecord :=
  endpointReference { s with referenceParameters := some (s.referenceParameters.getD noHeaders) }

end

/-- What is projected is accepted with its endpoint reference exactly where
the address is a logical endpoint; what is accepted under one id is one Thing;
and ids of different devices or resources are different. -/
theorem thing_identity (URL : String → Option Url) (sha256 : String → String) (hsha : Function.Injective sha256) :
    (∀ projector value tds s addressingNamespace, assertDeviceSnapshot URL value = .ok s →
      project URL sha256 projector value = .ok tds → Permitted s addressingNamespace → ∀ td ∈ tds,
        projectedEndpointReference URL sha256 (attachDiscovery td (completeReference s) addressingNamespace) =
          (logicalUrl URL s.address.1).map fun _ => some ⟨s.address.1, addressingNamespace, s.referenceProperties.1,
            (s.referenceParameters.getD noHeaders).1⟩) ∧
    (∀ d d' r r', projectedEndpointReference URL sha256 d = .ok (some r) →
      projectedEndpointReference URL sha256 d' = .ok (some r') → textOf "id" d = textOf "id" d' → SameThing d d' r r') ∧
    (∀ s s', deviceThingId sha256 s = deviceThingId sha256 s' → SameEndpoint s s') ∧
    (∀ s s' r r', resourceThingId sha256 s r = resourceThingId sha256 s' r' → SameEndpoint s s' ∧
      r.serviceNamespace.1 = r'.serviceNamespace.1 ∧ r.kind.1 = r'.kind.1 ∧
        Same (.array r.parentTokens.1) (.array r'.parentTokens.1) ∧ r.token.1 = r'.token.1) ∧
    ∀ s s' r, deviceThingId sha256 s ≠ resourceThingId sha256 s' r := by
  refine ⟨fun projector value tds s addressingNamespace hs h hns td htd => project_accepted hs h hns htd,
    fun d d' r r' h h' hid => accepted_same hsha h h' hid, fun s s' h => ?_, fun s s' r r' h => ?_,
    fun s s' r => device_ne_resource _ _⟩
  · obtain ⟨ha, hp, -⟩ := @expectedId_inj _ hsha _ _ _ _ none none h
    exact ⟨ha, hp⟩
  · obtain ⟨ha, hp, -, hk⟩ := @expectedId_inj _ hsha _ _ _ _ (some r.identity.key) (some r'.identity.key) h
    exact ⟨⟨ha, hp⟩, same_key (hk _ _ rfl rfl)⟩

-- A device with a resource

/-- `URL`, of addresses without an authority. -/
def opaqueUrl (address : String) : Option Url :=
  let scheme := address.toList.takeWhile (· ≠ ':')
  if scheme.head?.any Char.isAlpha ∧ scheme.length < address.toList.length then
    some ⟨String.ofList (scheme.map Char.toLower ++ [':']), "", ""⟩
  else none

def minimalProjector : Projector := ⟨fun _ => .ok (), fun _ => .ok fun _ => .null, fun _ _ => .ok fun _ => .null⟩

def cameraSnapshot (address : String) (parameters : JsonRecord) : JsonValue :=
  .object [("schemaVersion", .number ⟨false, 1, 1, FiniteNumber.tidy_one⟩),
    ("epr", .object ([("address", .string address), ("referenceProperties", .array [])] ++ parameters)),
    ("services", .array []), ("profileClaims", .array []),
    ("resources", .array [.object [("serviceNamespace", .string "http://www.onvif.org/ver10/media/wsdl"),
      ("kind", .string "MediaProfile"), ("token", .string "main"), ("parentTokens", .array []),
      ("evidence", .array [.object [("sourceId", .string "device")]])]])]

theorem run_ok {ε α : Type} {x : Except ε α} {p : α → Bool} (h : x.toOption.any p) : ∃ a, x = .ok a ∧ p a := by
  cases x with
  | error e => cases h
  | ok a => exact ⟨a, rfl, h⟩

theorem thing_identity_camera :
    ∃ tds s, project opaqueUrl id minimalProjector (cameraSnapshot "urn:uuid:1" []) = .ok tds ∧ tds.length = 2 ∧
      ∀ td ∈ tds, projectedEndpointReference opaqueUrl id (attachDiscovery td (completeReference s) WSA_2004_NS) =
        .ok (some ⟨"urn:uuid:1", WSA_2004_NS, [], []⟩) := by
  obtain ⟨s, hs, hread⟩ := run_ok (x := assertDeviceSnapshot opaqueUrl (cameraSnapshot "urn:uuid:1" []))
    (p := fun s => s.address.1 = "urn:uuid:1" && s.referenceProperties.1.isEmpty && s.referenceParameters.isNone) (by decide +kernel)
  obtain ⟨tds, hp, hlength⟩ := run_ok (x := project opaqueUrl id minimalProjector (cameraSnapshot "urn:uuid:1" []))
    (p := fun tds => tds.length = 2) (by decide +kernel)
  simp only [Bool.and_eq_true, decide_eq_true_eq, List.isEmpty_iff, Option.isNone_iff_eq_none] at hread hlength
  obtain ⟨⟨ha, hproperties⟩, hparameters⟩ := hread
  refine ⟨tds, s, hp, hlength, fun td htd => ?_⟩
  rw [(thing_identity opaqueUrl id Function.injective_id).1 _ _ _ _ _ hs hp (.inl rfl) td htd, ha, hproperties, hparameters]
  obtain ⟨url, hurl, -⟩ := run_ok (x := logicalUrl opaqueUrl "urn:uuid:1") (p := fun _ => true) (by decide +kernel)
  rw [hurl]
  rfl

/-- The Things of a snapshot are accepted with its endpoint reference as it is. -/
def AttachAccepted (URL : String → Option Url) (sha256 : String → String) (projector : Projector) (value : JsonValue) : Prop :=
  ∀ tds s addressingNamespace, assertDeviceSnapshot URL value = .ok s → project URL sha256 projector value = .ok tds →
    Permitted s addressingNamespace → ∀ td ∈ tds,
      projectedEndpointReference URL sha256 (attachDiscovery td (endpointReference s) addressingNamespace) =
        .ok (some ⟨s.address.1, addressingNamespace, s.referenceProperties.1, (s.referenceParameters.getD noHeaders).1⟩)

theorem attach_refused {URL : String → Option Url} {sha256 : String → String} {projector : Projector} {value : JsonValue}
    (h : ((assertDeviceSnapshot URL value).toOption.any fun s => (project URL sha256 projector value).toOption.any fun tds =>
      tds.any fun td => (projectedEndpointReference URL sha256
        (attachDiscovery td (endpointReference s) WSA_2004_NS)).toOption.isNone) = true) :
    ¬ AttachAccepted URL sha256 projector value := by
  intro haccepted
  obtain ⟨s, hs, h⟩ := run_ok h
  obtain ⟨tds, hp, h⟩ := run_ok h
  obtain ⟨td, htd, h⟩ := List.any_eq_true.mp h
  rw [haccepted tds s WSA_2004_NS hs hp (.inl rfl) td htd] at h
  cases h

/-- An address of another scheme, and an endpoint reference without parameters. -/
theorem projected_refused :
    ¬ AttachAccepted opaqueUrl id minimalProjector (cameraSnapshot "uuid:0f8e7d6c" [("referenceParameters", .array [])]) ∧
      ¬ AttachAccepted opaqueUrl id minimalProjector (cameraSnapshot "urn:uuid:1" []) :=
  ⟨attach_refused (by decide +kernel), attach_refused (by decide +kernel)⟩

end WotAv.Projection
