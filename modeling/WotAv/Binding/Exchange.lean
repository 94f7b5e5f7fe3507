import WotAv.Binding.ExecutorLaws

/-!
# Runs of the executor

By induction on the attempts that are left: the calls form a chain, each made
for the challenge that the one before it was answered with.
-/

namespace WotAv.Binding

open WotAv.Lib

variable {τ ν : Type} (e : Surroundings τ ν)

/-- The second call is made for the challenge that answers the first. -/
def Follows (first second : Call ν) : Prop := ∃ next, Challenged e first next ∧ second.challenge = some next ∧
  ∀ c, first.challenge = some c → renews next c

/-- The device executed nothing: it asked for credentials or found fault with
the sender, or the transport itself says so. -/
def Harmless (call : Call ν) : Prop := match call.outcome with
  | .response response => response.status = 401 ∨ SenderFault e response
  | .failure failure =>
    failure.execution = some .notSent ∨ failure.execution = some .rejected ∧ failure.isTransport = false

/-- The call's `Authorization` is made for its challenge. -/
def Authorized (call : Call ν) : Prop := ∀ value, call.request.authorization = some value →
  ∃ c username password body cnonce, call.challenge = some c ∧
    createDigestAuthorization e.hashes ⟨c, username, password, e.target.path, body, cnonce⟩ = .ok value

structure Attempted (digest : Bool) (left : Nat) (challenge : Option DigestChallenge)
    (run : List (Call ν) × Except (Failure ν) (NativeExecutionResult ν)) : Prop where
  few : run.1.length ≤ left
  chain : run.1.IsChain (Follows e)
  head : ∀ call, run.1.head? = some call → (challenge = none → call.challenge = none) ∧ (digest → call.challenge = challenge)
  authorized : ∀ call ∈ run.1, Authorized e call
  certain : ∀ failure, run.2 = .error failure → failure.claimsNone → ∀ call ∈ run.1, Harmless e call
  returned : ∀ result, run.2 = .ok result → ∃ call response, run.1.getLast? = some call ∧
    call.outcome = .response response ∧ Returned e response result

theorem Attempted.nothing (outcome : Failure ν) : Attempted e digest left challenge ([], .error outcome) where
  few := Nat.zero_le _
  chain := .nil
  head call h := by cases h
  authorized call h := by cases h
  certain failure _ _ call h := by cases h
  returned result h := by cases h

def callOf (challenge : Option DigestChallenge) (request : SoapRequest) (outcome : Outcome ν) : Call ν :=
  { challenge := if request.authorization.isSome then challenge else none, request, outcome }

section
variable (hp : prepare e attempt selections challenge = .ok request)
include hp

theorem callOf_head (outcome : Outcome ν) :
    (challenge = none → (callOf challenge request outcome).challenge = none) ∧
      ((selected selections ["digest"]).isSome → (callOf challenge request outcome).challenge = challenge) := by
  unfold callOf
  refine ⟨?_, fun hd => ?_⟩
  · rintro rfl
    simp
  · cases challenge with
    | none => simp
    | some c => simp [(prepare_authorization e hp).2 hd rfl]

theorem callOf_authorized (outcome : Outcome ν) :
    Authorized e (callOf challenge request outcome) := by
  rintro value hv
  obtain ⟨c, username, password, body, cnonce, hc, hmade⟩ := (prepare_authorization e hp).1 value hv
  refine ⟨c, username, password, body, cnonce, ?_, hmade⟩
  simp [callOf, show request.authorization = some value from hv, hc]

theorem Attempted.last
    (hcertain : ∀ failure, result = .error failure → failure.claimsNone →
      Harmless e (callOf challenge request outcome))
    (hreturned : ∀ value, result = .ok value → ∃ response, outcome = .response response ∧
      Returned e response value) :
    Attempted e (selected selections ["digest"]).isSome (left + 1) challenge ([callOf challenge request outcome], result) where
  few := by simp
  chain := .singleton _
  head call hc := by
    obtain rfl := Option.some.inj hc
    exact callOf_head e hp outcome
  authorized call hc := by
    obtain rfl := List.mem_singleton.mp hc
    exact callOf_authorized e hp outcome
  certain failure hf hn call hc := by
    obtain rfl := List.mem_singleton.mp hc
    exact hcertain failure hf hn
  returned value hv := by
    obtain ⟨response, ho, hr⟩ := hreturned value hv
    exact ⟨_, response, rfl, ho, hr⟩

end

theorem attempts_attempted (selections : List SelectedSecurity) (left : Nat) (challenge : Option DigestChallenge) :
    Attempted e (selected selections ["digest"]).isSome left challenge (attempts e selections left challenge) := by
  induction left generalizing challenge with
  | zero => exact .nothing e _
  | succ left ih =>
    unfold attempts
    dsimp only
    split
    · exact .nothing e _
    · rename_i request hp
      cases ho : e.transport (2 - left) request with
      | failure failure =>
        refine .last e hp (fun failure' hf hn => ?_) (by simp)
        obtain rfl := Except.error.inj hf
        exact settle_claimsNone hn
      | response response =>
        dsimp only
        cases ha : answered e (decide (left = 0)) (selected selections ["digest"]).isSome challenge response with
        | error failure =>
          refine .last e hp (fun failure' hf hn => ?_) (by simp)
          obtain rfl := Except.error.inj hf
          exact answered_claimsNone e ha hn
        | ok answer =>
          cases answer with
          | inr result =>
            refine .last e hp (by simp) fun value hv => ⟨response, rfl, ?_⟩
            obtain rfl := Except.ok.inj hv
            exact answered_result e ha
          | inl next =>
            -- The answer was 401: the rest of the run is made for its challenge.
            obtain ⟨hstatus, hdigest, _, hselect, hrenews⟩ := answered_again e ha
            have hrest := ih (some next)
            have hhead := callOf_head e hp (.response response)
            refine ⟨?_, ?_, ?_, ?_, ?_, ?_⟩
            · exact Nat.succ_le_succ hrest.few
            · refine (List.isChain_cons_iff _ _ _).mpr ?_
              cases hcalls : (attempts e selections left (some next)).1 with
              | nil => exact .inl rfl
              | cons second calls =>
                refine .inr ⟨second, calls, ⟨next, ⟨response, rfl, hstatus, hselect⟩, ?_, ?_⟩, ?_, rfl⟩
                · exact (hrest.head second (by rw [hcalls]; rfl)).2 hdigest
                · intro c hc
                  exact hrenews c ((hhead.2 hdigest).symm.trans hc)
                · exact hcalls ▸ hrest.chain
            · intro call hc
              obtain rfl := Option.some.inj hc
              exact hhead
            · intro call hc
              rcases List.mem_cons.mp hc with rfl | hc
              · exact callOf_authorized e hp _
              · exact hrest.authorized call hc
            · intro failure hf hn call hc
              rcases List.mem_cons.mp hc with rfl | hc
              · exact .inl hstatus
              · exact hrest.certain failure hf hn call hc
            · intro result hr
              obtain ⟨call, response', hlast, hout, hret⟩ := hrest.returned result hr
              refine ⟨call, response', ?_, hout, hret⟩
              simp [List.getLast?_cons, hlast]

/-- A run never replays what may have been executed, and never says that
nothing was where something may have been. -/
theorem exchange_certain :
    (exchange e).1.length ≤ 3 ∧
    ((exchange e).1.IsChain fun call _ => ∃ response, call.outcome = .response response ∧ response.status = 401) ∧
    (∀ first second third, (exchange e).1 = [first, second, third] → ∃ c₁ c₂, Challenged e first c₁ ∧
      Challenged e second c₂ ∧ c₂.stale ∧ c₂.nonce ≠ c₁.nonce ∧ c₂.realm = c₁.realm ∧ c₂.algorithm = c₁.algorithm ∧
      c₂.qop = c₁.qop) ∧
    (∀ call ∈ (exchange e).1, Authorized e call) ∧
    (((exchange e).1.filterMap (·.challenge)).map (·.nonce)).Nodup ∧
    (∀ failure, (exchange e).2 = .error failure → failure.claimsNone → ∀ call ∈ (exchange e).1, Harmless e call) ∧
    ∀ result, (exchange e).2 = .ok result → ∃ call response, (exchange e).1.getLast? = some call ∧
      call.outcome = .response response ∧ Returned e response result := by
  obtain ⟨digest, h⟩ : ∃ digest, Attempted e digest 3 none (exchange e) := by
    unfold exchange
    cases preflight e with
    | error failure => exact ⟨false, .nothing e _⟩
    | ok selections => exact ⟨_, attempts_attempted e selections 3 none⟩
  have hpair {first second : Call ν} {c : DigestChallenge} (hf : Follows e first second) (hc : first.challenge = some c) :
      ∃ next, Challenged e first next ∧ second.challenge = some next ∧ renews next c := by
    obtain ⟨next, hchallenged, hnext, hrenews⟩ := hf
    exact ⟨next, hchallenged, hnext, hrenews c hc⟩
  refine ⟨h.few, h.chain.imp ?_, ?_, h.authorized, ?_, h.certain, h.returned⟩
  · rintro call _ ⟨next, ⟨response, ho, hs, _⟩, _⟩
    exact ⟨response, ho, hs⟩
  · intro first second third hcalls
    have hchain := h.chain
    simp only [hcalls, List.isChain_cons_cons] at hchain
    obtain ⟨⟨c₁, h₁, hc₁, _⟩, hsecond, _⟩ := hchain
    obtain ⟨c₂, h₂, _, hr⟩ := hpair hsecond hc₁
    simp only [renews, Bool.and_eq_true, decide_eq_true_eq, ne_eq] at hr
    exact ⟨c₁, c₂, h₁, h₂, by simpa [and_assoc] using hr⟩
  · have hfew := h.few
    have hchain := h.chain
    have hhead := h.head
    match hcalls : (exchange e).1 with
    | [] => exact List.nodup_nil
    | [first] => simp [(hhead first (by rw [hcalls]; rfl)).1 rfl]
    | [first, second] =>
      simp only [hcalls, List.isChain_cons_cons] at hchain
      obtain ⟨⟨c₁, _, hc₁, _⟩, _⟩ := hchain
      simp [(hhead first (by rw [hcalls]; rfl)).1 rfl, hc₁]
    | [first, second, third] =>
      simp only [hcalls, List.isChain_cons_cons] at hchain
      obtain ⟨⟨c₁, _, hc₁, _⟩, hsecond, _⟩ := hchain
      obtain ⟨c₂, _, hc₂, hr⟩ := hpair hsecond hc₁
      simp only [renews, Bool.and_eq_true, decide_eq_true_eq, ne_eq] at hr
      simp [(hhead first (by rw [hcalls]; rfl)).1 rfl, hc₁, hc₂, Ne.symm hr.1.1.1.2]
    | _ :: _ :: _ :: _ :: rest =>
      rw [hcalls] at hfew
      simp only [List.length_cons] at hfew
      omega

def refusing : Surroundings Unit Unit where
  xml := { parseXml := fun _ => .error .other, decodeElement := fun _ _ => .ok (), elements := fun _ => none }
  hashes := ⟨fun _ => "", fun _ => ""⟩
  digestPolicy := ⟨[], []⟩
  preliminary := .ok ()
  selections := .ok []
  trustIdentity := false
  context := ⟨"urn:thing", "operator"⟩
  target := ⟨"http://camera/onvif/ptz_service", "http://camera", false, "/onvif/ptz_service"⟩
  operation := { soapAction := "http://www.onvif.org/ver20/ptz/wsdl/Stop", responseAction := none
                 request := ⟨⟨"http://www.onvif.org/ver20/ptz/wsdl", "Stop"⟩, ()⟩, response := none, faults := [] }
  addressingNamespace := none
  payload := .element ⟨"http://www.onvif.org/ver20/ptz/wsdl", "Stop"⟩ [] [] []
  certificateProvider := none
  certificateWait := none
  overdue _ _ := none
  provider := none
  createUsernameToken _ _ _ := .ok ""
  soapEnvelope _ _ := .ok []
  nonce _ := .ok ""
  transport _ _ := .failure (.error ⟨.authenticationFailed, "The gateway refused the request", .rejected⟩ false)

/-- Such a failure is passed on as it is. -/
theorem exchange_refused : ¬∀ (e : Surroundings Unit Unit) (failure : Failure Unit),
    (exchange e).2 = .error failure → failure.claimsNone → ∀ call ∈ (exchange e).1, match call.outcome with
      | .response response => response.status = 401 ∨ SenderFault e response
      | .failure failure => failure.execution = some .notSent := by
  intro h
  have := h refusing _ rfl (.inr rfl) _ (.head _)
  cases this

end WotAv.Binding
