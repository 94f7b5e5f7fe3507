import WotAv.Lib.Throwing
import WotAv.Media.Policy

/-!
# SOAP responses (`src/binding/soap.ts`, `src/xml/types.ts`)

The XML parser and the mapper are parameters: all that they throw of their own
has the default certainty. The type of a descriptor and the canonical values
are parameters with them.
-/

namespace WotAv.Binding

open WotAv.Lib
open WotAv.Media (isSpace)

-- XML

structure QName where
  namespace_ : String
  localName : String
  deriving DecidableEq, Repr

inductive XmlNode
  | element (name : QName) (namespaces : List (String × String)) (attributes : List (QName × String))
      (children : List XmlNode)
  | text (value : String)
  | comment (value : String)
  | processingInstruction (target value : String)

namespace XmlNode

def isElement : XmlNode → Bool
  | .element .. => true
  | _ => false

def named (name : QName) : XmlNode → Bool
  | .element name' .. => name' = name
  | _ => false

def children : XmlNode → List XmlNode
  | .element _ _ _ children => children
  | _ => []

def namespaces : XmlNode → List (String × String)
  | .element _ namespaces _ _ => namespaces
  | _ => []

def attributeValue (name : QName) : XmlNode → Option String
  | .element _ _ attributes _ => (attributes.find? (·.1 = name)).map (·.2)
  | _ => none

def value : XmlNode → String
  | .text value => value
  | _ => ""

def elementName : XmlNode → QName
  | .element name .. => name
  | _ => ⟨"", ""⟩

end XmlNode

def childElements (node : XmlNode) : List XmlNode := node.children.filter (·.isElement)

def textContent (node : XmlNode) : Except OnvifError String := do
  require (node.children.all (!·.isElement)) .invalidValue "Simple content contains child elements"
  return String.join (node.children.map (·.value))

def xmlNameStart (ch : Char) : Bool :=
  let code := ch.toNat
  ch.isAlpha || ch = '_' || (0xc0 ≤ code && code ≤ 0xd6) || (0xd8 ≤ code && code ≤ 0xf6) || (0xf8 ≤ code && code ≤ 0x2ff) ||
    (0x370 ≤ code && code ≤ 0x37d) || (0x37f ≤ code && code ≤ 0x1fff) || (0x200c ≤ code && code ≤ 0x200d) ||
    (0x2070 ≤ code && code ≤ 0x218f) || (0x2c00 ≤ code && code ≤ 0x2fef) || (0x3001 ≤ code && code ≤ 0xd7ff) ||
    (0xf900 ≤ code && code ≤ 0xfdcf) || (0xfdf0 ≤ code && code ≤ 0xfffd) || (0x10000 ≤ code && code ≤ 0xeffff)

def xmlNameChar (ch : Char) : Bool :=
  let code := ch.toNat
  xmlNameStart ch || ch.isDigit || ch = '-' || ch = '.' || code = 0xb7 || (0x300 ≤ code && code ≤ 0x36f) ||
    (0x203f ≤ code && code ≤ 0x2040)

def isNCName (value : List Char) : Bool := match value with
  | [] => false
  | first :: rest => xmlNameStart first && rest.all xmlNameChar

def trim (value : List Char) : List Char := ((value.dropWhile isSpace).reverse.dropWhile isSpace).reverse

def resolveQName (value : String) (namespaces : List (String × String)) : Except OnvifError QName :=
  match (trim value.toList).splitOn ':' with
  | [localName] => do
    require (isNCName localName) .invalidValue "Invalid lexical QName"
    return ⟨((namespaces.find? (·.1 = "")).map (·.2)).getD "", String.ofList localName⟩
  | [start, localName] => do
    require (isNCName localName ∧ isNCName start) .invalidValue "Invalid lexical QName"
    match namespaces.find? (·.1 = String.ofList start) with
    | none => .error ⟨.invalidValue, "Unbound QName prefix", .notSent⟩
    | some (_, namespace_) => return ⟨namespace_, String.ofList localName⟩
  | _ => .error ⟨.invalidValue, "Invalid lexical QName", .notSent⟩

-- Faults

def SOAP_NS : String := "http://www.w3.org/2003/05/soap-envelope"

def WSA_NS : String := "http://www.w3.org/2005/08/addressing"

def XML_NS : String := "http://www.w3.org/XML/1998/namespace"

structure NativeFault (ν : Type) where
  code : QName
  subcodes : List QName
  /-- Language and text. -/
  reasons : List (String × String)
  detail : Option XmlNode
  node : Option String
  role : Option String
  typedDetails : List (QName × Option String × ν) := []

/-- What is thrown: an `OnvifError`, also where it is a `TransportFailure`; a
`SoapFaultError`; or anything else. -/
inductive Failure (ν : Type)
  | error (e : OnvifError) (transport : Bool)
  | soapFault (fault : NativeFault ν) (status : Nat)
  | other

def senderCode : QName := ⟨SOAP_NS, "Sender"⟩

/-- `error.execution`. -/
def Failure.execution {ν : Type} : Failure ν → Option ExecutionCertainty
  | .error e _ => some e.execution
  | .soapFault fault _ => some (if fault.code = senderCode then .rejected else .unknown)
  | .other => none

inductive Raised
  | error (code : OnvifErrorCode) (message : String)
  | other

def Raised.failure {ν : Type} : Raised → Failure ν
  | .error code message => .error ⟨code, message, .notSent⟩ false
  | .other => .other

/-- `new OnvifError("InvalidXml", message, "unknown")`. -/
def unknownXml (message : String) : OnvifError := ⟨.invalidXml, message, .unknown⟩

def one (parent : XmlNode) (localName : String) (required : Bool := true) (namespace_ : String := SOAP_NS) :
    Except OnvifError (Option XmlNode) :=
  let values := (childElements parent).filter (·.named ⟨namespace_, localName⟩)
  if values.length > 1 ∨ (required ∧ values.length ≠ 1) then
    .error (unknownXml "Missing or duplicate required SOAP/EPR element")
  else .ok values.head?

def required (parent : XmlNode) (localName : String) : Except OnvifError XmlNode := do
  match ← one parent localName with
  | none => .error (unknownXml "Missing SOAP/EPR element")
  | some value => return value

theorem one_smaller (h : one parent localName needed namespace_ = .ok (some value)) :
    sizeOf value < sizeOf parent := by
  unfold one at h
  dsimp only at h
  split at h
  · cases h
  · have hin := List.mem_of_mem_head? (Except.ok.inj h)
    have hchild : value ∈ parent.children := (List.mem_filter.mp (List.mem_filter.mp hin).1).1
    cases parent with
    | element name namespaces attributes children =>
      have hless := List.sizeOf_lt_of_mem (show value ∈ children from hchild)
      simp only [XmlNode.element.sizeOf_spec]
      omega
    | text _ => cases hchild
    | comment _ => cases hchild
    | processingInstruction _ _ => cases hchild

def subcodes (node : XmlNode) : Except OnvifError (List QName) :=
  match _h : one node "Subcode" false with
  | .error e => .error e
  | .ok none => .ok []
  | .ok (some current) => do
    let value ← required current "Value"
    let code ← resolveQName (← textContent value) value.namespaces
    let rest ← subcodes current
    return code :: rest
termination_by sizeOf node
decreasing_by exact one_smaller _h

def reasonText (text : XmlNode) : Except OnvifError (String × String) := do
  require (text.named ⟨SOAP_NS, "Text"⟩) .invalidXml "Unexpected SOAP fault reason" .unknown
  match text.attributeValue ⟨XML_NS, "lang"⟩ with
  | none => .error (unknownXml "SOAP fault Reason requires xml:lang")
  | some language => do
    require (language ≠ "") .invalidXml "SOAP fault Reason requires xml:lang" .unknown
    return (language, ← textContent text)

def parseFault (ν : Type) (root : XmlNode) : Except OnvifError (NativeFault ν) := do
  let codeNode ← required root "Code"
  let valueNode ← required codeNode "Value"
  let code ← resolveQName (← textContent valueNode) valueNode.namespaces
  let subcodes ← subcodes codeNode
  let reason ← required root "Reason"
  let reasons ← (childElements reason).mapM reasonText
  require (reasons ≠ []) .invalidXml "SOAP fault has no reason" .unknown
  let detail ← one root "Detail" false
  let faultNode ← one root "Node" false
  let role ← one root "Role" false
  let node ← faultNode.mapM textContent
  let role ← role.mapM textContent
  return { code, subcodes, reasons, detail, node, role }

-- Responses

structure ElementDescriptor (τ : Type) where
  name : QName
  type : τ

structure FaultDescriptor (τ : Type) where
  name : String
  element : ElementDescriptor τ
  action : Option String

structure OperationDescriptor (τ : Type) where
  soapAction : String
  responseAction : Option String
  request : ElementDescriptor τ
  response : Option (ElementDescriptor τ)
  faults : List (FaultDescriptor τ)

/-- The XML parser, the mapper, and the elements of the registry. -/
structure Xml (τ ν : Type) where
  parseXml : Bytes → Except Raised XmlNode
  decodeElement : ElementDescriptor τ → XmlNode → Except Raised ν
  elements : QName → Option (ElementDescriptor τ)

section
variable {τ ν : Type} (xml : Xml τ ν)

/-- An exception that is an `OnvifError`. -/
def thrown (result : Except OnvifError α) : Except (Failure ν) α := result.mapError (.error · false)

def raised (result : Except Raised α) : Except (Failure ν) α := result.mapError Raised.failure

def understood (addressingNamespace : String) (entry : XmlNode) : Bool :=
  let mustUnderstand := entry.attributeValue ⟨SOAP_NS, "mustUnderstand"⟩
  !(mustUnderstand = some "true" || mustUnderstand = some "1") ||
    (entry.elementName.namespace_ = addressingNamespace &&
      ["Action", "To", "RelatesTo", "MessageID"].contains entry.elementName.localName)

def headerAction (header : Option XmlNode) (needed : Bool) (addressingNamespace : String) : Except OnvifError (Option XmlNode) :=
  match header with
  | none => .ok none
  | some header => one header "Action" needed addressingNamespace

/-- The Action, if there is one, is the one that is declared, if one is. -/
def assertFaultAction (action : Option XmlNode) (declared : Option String) : Except OnvifError Unit :=
  match action, declared with
  | some action, some declared => do
    let text ← textContent action
    require (text = declared) .invalidXml "WS-Addressing fault Action differs from the declared fault" .unknown
  | _, _ => .ok ()

/-- What a detail of a fault decodes to, where it is declared. -/
def typedDetail (operation : OperationDescriptor τ) (header : Option XmlNode) (addressingNamespace : String)
    (detail : XmlNode) : Except (Failure ν) (Option (QName × Option String × ν)) :=
  let declared := operation.faults.find? (·.element.name = detail.elementName)
  match (declared.map (·.element)).or (xml.elements detail.elementName) with
  | none => .ok none
  | some element => do
    let value ← raised (xml.decodeElement element detail)
    let action ← thrown (headerAction header false addressingNamespace)
    thrown (assertFaultAction action (declared.bind (·.action)))
    return some (detail.elementName, declared.map (·.name), value)

def soapFault (operation : OperationDescriptor τ) (header : Option XmlNode) (addressingNamespace : String) (payload : XmlNode)
    (status : Nat) : Except (Failure ν) XmlNode := do
  let fault ← thrown (parseFault ν payload)
  let details ← ((fault.detail.map childElements).getD []).mapM (typedDetail xml operation header addressingNamespace)
  (.error (.soapFault { fault with typedDetails := details.filterMap id } status) : Except (Failure ν) XmlNode)

def envelopeParts (root : XmlNode) (addressingNamespace : String) : Except OnvifError (Option XmlNode × XmlNode) := do
  require (root.named ⟨SOAP_NS, "Envelope"⟩) .invalidXml "Expected a SOAP 1.2 Envelope" .unknown
  let header ← one root "Header" false
  let body ← required root "Body"
  require ((childElements root).all fun child =>
      child.named ⟨SOAP_NS, "Header"⟩ || child.named ⟨SOAP_NS, "Body"⟩) .invalidXml "Unexpected SOAP envelope content" .unknown
  require (((header.map childElements).getD []).all (understood addressingNamespace)) .unsupportedCapability
    "Required SOAP response header is not implemented" .unknown
  match childElements body with
  | [payload] => return (header, payload)
  | _ => .error (unknownXml "Document/literal SOAP Body requires one message element")

def soapResponse (bytes : Bytes) (operation : OperationDescriptor τ) (status : Nat)
    (addressingNamespace : String := WSA_NS) : Except (Failure ν) XmlNode := do
  let root ← raised (xml.parseXml bytes)
  let (header, payload) ← thrown (envelopeParts root addressingNamespace)
  if payload.named ⟨SOAP_NS, "Fault"⟩ then soapFault xml operation header addressingNamespace payload status
  else do
    thrown (require (200 ≤ status ∧ status < 300) .transportError "HTTP failure without a native SOAP fault" .unknown)
    match operation.responseAction with
    | none => return payload
    | some expected => do
      let action ← thrown (headerAction header true addressingNamespace)
      let text ← thrown (action.mapM textContent)
      thrown (require (text = some expected) .invalidXml
        "WS-Addressing response Action does not match the local registry" .unknown)
      return payload

end

end WotAv.Binding
