import Mathlib.Data.List.Chain
import WotAv.Binding.Executor

/-!
# What a run of the executor promises

Nothing of what is read of a response is said to be rejected but a fault that
names the sender; the loop goes on only after an answer of 401.
-/

namespace WotAv.Binding

open WotAv.Lib

variable {τ ν α : Type}

-- Certainty

abbrev Unrejected (x : Except OnvifError α) : Prop := Throws (·.execution ≠ .rejected) x

abbrev UnrejectedFailure (x : Except (Failure ν) α) : Prop := Throws (·.execution ≠ some .rejected) x

theorem unrejected_require {p : Prop} [Decidable p] (h : execution ≠ .rejected) :
    Unrejected (require p code message execution) := by
  unfold require
  split
  · exact Throws.ok _
  · exact Throws.error.mpr h

theorem unrejected_thrown {x : Except OnvifError α} (h : Unrejected x) : UnrejectedFailure (ν := ν) (thrown x) :=
  h.mapError fun _ he hf => he (Option.some.inj hf)

theorem unrejected_raised (x : Except Raised α) : UnrejectedFailure (ν := ν) (raised x) := by
  refine Throws.mapError (P := fun _ => True) (fun _ _ => trivial) ?_
  rintro (_ | _) _ <;> simp [Raised.failure, Failure.execution]

theorem unrejected_textContent (node : XmlNode) : Unrejected (textContent node) :=
  Throws.bind (unrejected_require (by decide)) fun _ _ => Throws.ok _

theorem unrejected_resolveQName :
    Unrejected (resolveQName value namespaces) := by
  unfold resolveQName
  split
  · exact Throws.bind (unrejected_require (by decide)) fun _ _ => Throws.ok _
  · refine Throws.bind (unrejected_require (by decide)) fun _ _ => ?_
    split
    · exact Throws.error.mpr nofun
    · exact Throws.ok _
  · exact Throws.error.mpr nofun

theorem unrejected_one :
    Unrejected (one parent localName needed namespace_) := by
  unfold one
  dsimp only
  split
  · exact Throws.error.mpr nofun
  · exact Throws.ok _

theorem unrejected_required : Unrejected (required parent localName) := by
  refine Throws.bind (unrejected_one) fun found _ => ?_
  cases found with
  | none => exact Throws.error.mpr nofun
  | some value => exact Throws.ok _

theorem unrejected_subcodes (node : XmlNode) : Unrejected (subcodes node) := by
  induction node using subcodes.induct with
  | case1 node e h =>
    rw [subcodes, h]
    exact Throws.error.mpr (unrejected_one _ h)
  | case2 node h =>
    rw [subcodes, h]
    exact Throws.ok _
  | case3 node current h ih =>
    rw [subcodes, h]
    refine Throws.bind (unrejected_required) fun value _ => Throws.bind (unrejected_textContent value) fun text _ => ?_
    exact Throws.bind (unrejected_resolveQName) fun _ _ => ih.bind fun _ _ => Throws.ok _

theorem unrejected_reasonText (text : XmlNode) : Unrejected (reasonText text) := by
  refine Throws.bind (unrejected_require (by decide)) fun _ _ => ?_
  split
  · exact Throws.error.mpr nofun
  · exact Throws.bind (unrejected_require (by decide)) fun _ _ => Throws.bind (unrejected_textContent text) fun _ _ => Throws.ok _

theorem unrejected_parseFault (root : XmlNode) : Unrejected (parseFault ν root) := by
  refine Throws.bind (unrejected_required) fun codeNode _ => Throws.bind (unrejected_required) fun valueNode _ => ?_
  refine Throws.bind (unrejected_textContent _) fun text _ => Throws.bind (unrejected_resolveQName) fun code _ => ?_
  refine Throws.bind (unrejected_subcodes _) fun subcodes _ => Throws.bind (unrejected_required) fun reason _ => ?_
  refine Throws.bind (Throws.mapM unrejected_reasonText _) fun reasons _ => Throws.bind (unrejected_require (by decide)) fun _ _ => ?_
  refine Throws.bind (unrejected_one) fun detail _ => Throws.bind (unrejected_one) fun faultNode _ => ?_
  refine Throws.bind (unrejected_one) fun role _ => Throws.bind (Throws.mapM_option unrejected_textContent _) fun _ _ => ?_
  exact Throws.bind (Throws.mapM_option unrejected_textContent _) fun _ _ => Throws.ok _

theorem unrejected_envelopeParts :
    Unrejected (envelopeParts root addressingNamespace) := by
  refine Throws.bind (unrejected_require (by decide)) fun _ _ => Throws.bind (unrejected_one) fun header _ => ?_
  refine Throws.bind (unrejected_required) fun body _ => Throws.bind (unrejected_require (by decide)) fun _ _ => ?_
  refine Throws.bind (unrejected_require (by decide)) fun _ _ => ?_
  split
  · exact Throws.ok _
  · exact Throws.error.mpr nofun

theorem unrejected_headerAction :
    Unrejected (headerAction header needed addressingNamespace) := by
  unfold headerAction
  split
  · exact Throws.ok _
  · exact unrejected_one

theorem unrejected_assertFaultAction :
    Unrejected (assertFaultAction action declared) := by
  unfold assertFaultAction
  split
  · exact Throws.bind (unrejected_textContent _) fun _ _ => unrejected_require (by decide)
  · exact Throws.ok _

section
variable (xml : Xml τ ν)

theorem unrejected_typedDetail (operation : OperationDescriptor τ) (header : Option XmlNode)
    (addressingNamespace : String)
    (detail : XmlNode) : UnrejectedFailure (typedDetail xml operation header addressingNamespace detail) := by
  unfold typedDetail
  dsimp only
  split
  · exact Throws.ok _
  · refine Throws.bind (unrejected_raised _) fun value _ => Throws.bind (unrejected_thrown (unrejected_headerAction)) fun action _ => ?_
    exact Throws.bind (unrejected_thrown (unrejected_assertFaultAction)) fun _ _ => Throws.ok _

/-- What a fault is thrown as says `rejected` only of the sender's. -/
def Rejects (payload : XmlNode) (failure : Failure ν) : Prop := failure.execution = some .rejected →
  payload.named ⟨SOAP_NS, "Fault"⟩ ∧ ∃ fault, parseFault ν payload = .ok fault ∧ fault.code = senderCode

theorem soapFault_rejects (hp : payload.named ⟨SOAP_NS, "Fault"⟩) (operation : OperationDescriptor τ)
    (header : Option XmlNode) (addressingNamespace : String) (status : Nat) :
    Throws (Rejects payload) (soapFault xml operation header addressingNamespace payload status) := by
  have hmild {β : Type} {x : Except (Failure ν) β} (h : UnrejectedFailure x) : Throws (Rejects payload) x :=
    fun f hf hr => absurd hr (h f hf)
  refine Throws.bind (hmild (unrejected_thrown (unrejected_parseFault payload))) fun fault hfault => ?_
  refine Throws.bind (hmild (Throws.mapM (unrejected_typedDetail xml operation header addressingNamespace) _)) fun details _ => ?_
  refine Throws.error.mpr fun hr => ⟨hp, fault, ?_, ?_⟩
  · cases hparse : parseFault ν payload with
    | error e =>
      rw [hparse] at hfault
      cases hfault
    | ok found =>
      rw [hparse] at hfault
      rw [show found = fault from Except.ok.inj hfault]
  · by_contra hcode
    simp [Failure.execution, hcode] at hr

end

section
variable (e : Surroundings τ ν)

def SenderFault (response : SoapResponse) : Prop := ∃ root header payload fault,
  e.xml.parseXml response.body = .ok root ∧ envelopeParts root (e.addressingNamespace.getD WSA_NS) = .ok (header, payload) ∧
    payload.named ⟨SOAP_NS, "Fault"⟩ ∧ parseFault ν payload = .ok fault ∧ fault.code = senderCode

theorem decodeResponse_rejects (response : SoapResponse) :
    Throws (fun failure => failure.execution = some .rejected →
      SenderFault e response) (decodeResponse e response) := by
  have hmild {β : Type} {x : Except (Failure ν) β} (h : UnrejectedFailure x) :
      Throws (fun failure => failure.execution = some .rejected → SenderFault e response) x :=
    fun f hf hr => absurd hr (h f hf)
  unfold decodeResponse soapResponse
  refine Throws.bind ?_ fun payload _ => ?_
  · refine Throws.bind (hmild (unrejected_raised _)) fun root hroot => ?_
    refine Throws.bind (hmild (unrejected_thrown (unrejected_envelopeParts))) fun parts hparts => ?_
    obtain ⟨header, payload⟩ := parts
    dsimp only
    split
    · rename_i hp
      intro failure hf hr
      obtain ⟨hnamed, fault, hfault, hcode⟩ := soapFault_rejects e.xml hp _ _ _ _ failure hf hr
      refine ⟨root, header, payload, fault, ?_, ?_, hnamed, hfault, hcode⟩
      · cases hx : e.xml.parseXml response.body with
        | error _ =>
          rw [hx] at hroot
          cases hroot
        | ok found =>
          rw [hx] at hroot
          rw [show found = root from Except.ok.inj hroot]
      · cases hx : envelopeParts root (e.addressingNamespace.getD WSA_NS) with
        | error _ =>
          rw [hx] at hparts
          cases hparts
        | ok found =>
          rw [hx] at hparts
          rw [show found = (header, payload) from Except.ok.inj hparts]
    · refine Throws.bind (hmild (unrejected_thrown (unrejected_require (by decide)))) fun _ _ => ?_
      split
      · exact Throws.ok _
      · refine Throws.bind (hmild (unrejected_thrown (unrejected_headerAction))) fun action _ => ?_
        refine Throws.bind (hmild (unrejected_thrown (Throws.mapM_option unrejected_textContent _))) fun text _ => ?_
        exact Throws.bind (hmild (unrejected_thrown (unrejected_require (by decide)))) fun _ _ => Throws.ok _
  · split
    · exact Throws.error.mpr nofun
    · exact Throws.bind (hmild (unrejected_raised _)) fun _ _ => Throws.ok _

-- One attempt

def Failure.isTransport : Failure ν → Bool
  | .error _ transport => transport
  | _ => false

def Failure.claimsNone (failure : Failure ν) : Prop :=
  failure.execution = some .notSent ∨ failure.execution = some .rejected

theorem settle_claimsNone {failure : Failure ν} (h : (settle failure).claimsNone) :
    failure.execution = some .notSent ∨ failure.execution = some .rejected ∧ failure.isTransport = false := by
  cases failure with
  | error error transport =>
    cases transport with
    | true =>
      by_cases hn : error.execution = .notSent
      · exact .inl (congrArg some hn)
      · simp [settle, hn, Failure.claimsNone, Failure.execution] at h
    | false => exact h.imp_right (⟨·, rfl⟩)
  | soapFault fault status => exact h.imp_right (⟨·, rfl⟩)
  | other => simp [settle, Failure.claimsNone, Failure.execution] at h

theorem certain_claimsNone {failure : Failure ν} (h : (certain failure).claimsNone) :
    failure.execution = some .rejected := by
  cases failure with
  | error error transport =>
    by_cases hn : error.execution = .notSent
    · simp [certain, hn, Failure.claimsNone, Failure.execution] at h
    · simpa [certain, hn, Failure.claimsNone, Failure.execution] using h
  | soapFault fault status =>
    rcases h with h | h
    · simp only [certain, Failure.execution] at h
      split at h <;> cases h
    · exact h
  | other => simp [certain, Failure.claimsNone, Failure.execution] at h

theorem answered_claimsNone {failure : Failure ν}
    (h : answered e last digest challenge response = .error failure) (hf : failure.claimsNone) :
    response.status = 401 ∨ SenderFault e response := by
  unfold answered at h
  split at h
  · obtain rfl := Except.error.inj h
    simp [Failure.claimsNone, Failure.execution] at hf
  · split at h
    · exact .inl (by assumption)
    · split at h
      · cases h
      · split at h
        · obtain rfl := Except.error.inj h
          simp [Failure.claimsNone, Failure.execution] at hf
        · split at h
          · cases h
          · rename_i decoded hdecode
            obtain rfl := Except.error.inj h
            exact .inr (decodeResponse_rejects e response _ hdecode (certain_claimsNone hf))

/-- The call is answered by a challenge, and the next one is made for it. -/
def Challenged (call : Call ν) (next : DigestChallenge) : Prop := ∃ response, call.outcome = .response response ∧
  response.status = 401 ∧
  selectDigestChallenge ((headerValues "www-authenticate" response).getD []) e.digestPolicy = .ok next

theorem answered_again (h : answered e last digest challenge response = .ok (.inl next)) :
    response.status = 401 ∧ digest ∧ last = false ∧
      selectDigestChallenge ((headerValues "www-authenticate" response).getD []) e.digestPolicy = .ok next ∧
      ∀ c, challenge = some c → renews next c := by
  unfold answered at h
  split at h
  · cases h
  · split at h
    · rename_i hstatus
      split at h
      · cases h
      · rename_i hgo
        rw [not_or, not_not] at hgo
        cases hselect : selectDigestChallenge ((headerValues "www-authenticate" response).getD []) e.digestPolicy with
        | error _ =>
          rw [hselect] at h
          cases h
        | ok found =>
          rw [hselect] at h
          change (if _ then _ else _) = _ at h
          split at h
          · cases h
          · rename_i hrenews
            obtain rfl := Sum.inl.inj (Except.ok.inj h)
            refine ⟨hstatus, hgo.1, by simpa using hgo.2, rfl, ?_⟩
            rintro c rfl
            simpa using hrenews
    · split at h
      · cases h
      · split at h
        · cases h
        · split at h
          · cases h
          · cases h

def Returned (response : SoapResponse) (result : NativeExecutionResult ν) : Prop :=
  (e.operation.response.isNone ∧ (response.status = 202 ∨ response.status = 204) ∧ response.body = [] ∧
    result = { value := none, xml := none, status := response.status, oneWay := true }) ∨
  ∃ element payload value, e.operation.response = some element ∧
    soapResponse e.xml response.body e.operation response.status (e.addressingNamespace.getD WSA_NS) = .ok payload ∧
    e.xml.decodeElement element payload = .ok value ∧
    result = { value := some value, xml := some payload, status := response.status, oneWay := false }

theorem decodeResponse_ok (h : decodeResponse e response = .ok result) : Returned e response result := by
  obtain ⟨payload, hpayload, h⟩ := except_bind_ok h
  cases he : e.operation.response with
  | none =>
    rw [he] at h
    cases h
  | some element =>
    rw [he] at h
    obtain ⟨value, hvalue, h⟩ := except_bind_ok h
    obtain rfl := Except.ok.inj h
    refine .inr ⟨element, payload, value, he, hpayload, ?_, rfl⟩
    cases hd : e.xml.decodeElement element payload with
    | error _ =>
      rw [hd] at hvalue
      cases hvalue
    | ok found =>
      rw [hd] at hvalue
      rw [show found = value from Except.ok.inj hvalue]

theorem answered_result (h : answered e last digest challenge response = .ok (.inr result)) :
    Returned e response result := by
  unfold answered at h
  split at h
  · cases h
  · split at h
    · split at h
      · cases h
      · obtain ⟨next, _, h⟩ := except_bind_ok h
        split at h
        · cases h
        · cases h
    · split at h
      · rename_i hone
        obtain rfl := Sum.inr.inj (Except.ok.inj h)
        exact .inl ⟨hone.1, hone.2.1, hone.2.2, rfl⟩
      · split at h
        · cases h
        · split at h
          · rename_i hdecode
            obtain rfl := Sum.inr.inj (Except.ok.inj h)
            exact decodeResponse_ok e hdecode
          · cases h

theorem prepare_authorization (h : prepare e attempt selections challenge = .ok request) :
    (∀ value, request.authorization = some value → ∃ c username password body cnonce, challenge = some c ∧
      createDigestAuthorization e.hashes ⟨c, username, password, e.target.path, body, cnonce⟩ = .ok value) ∧
    ((selected selections ["digest"]).isSome → challenge.isSome → request.authorization.isSome) := by
  obtain ⟨token, _, h⟩ := except_bind_ok h
  obtain ⟨body, _, h⟩ := except_bind_ok h
  obtain ⟨made, hmade, h⟩ := except_bind_ok h
  obtain ⟨_, _, h⟩ := except_bind_ok h
  obtain rfl := Except.ok.inj h
  dsimp only
  cases hd : selected selections ["digest"] with
  | none =>
    rw [hd] at hmade
    obtain rfl := Except.ok.inj hmade
    exact ⟨nofun, nofun⟩
  | some digest =>
    cases challenge with
    | none =>
      rw [hd] at hmade
      obtain rfl := Except.ok.inj hmade
      exact ⟨nofun, nofun⟩
    | some c =>
      rw [hd] at hmade
      obtain ⟨_, _, hmade⟩ := except_bind_ok hmade
      obtain ⟨material, _, hmade⟩ := except_bind_ok hmade
      cases material with
      | password username password =>
        obtain ⟨cnonce, _, hmade⟩ := except_bind_ok hmade
        obtain ⟨value, hvalue, hmade⟩ := except_bind_ok hmade
        obtain rfl := Except.ok.inj hmade
        refine ⟨fun found hfound => ?_, fun _ _ => rfl⟩
        obtain rfl := Option.some.inj hfound
        refine ⟨c, username, password, body, cnonce, rfl, ?_⟩
        cases hc : createDigestAuthorization e.hashes ⟨c, username, password, e.target.path, body, cnonce⟩ with
        | error _ =>
          rw [hc] at hvalue
          cases hvalue
        | ok found =>
          rw [hc] at hvalue
          rw [show found = value from Except.ok.inj hvalue]
      | _ => cases hmade

end

end WotAv.Binding
