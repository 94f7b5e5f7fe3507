import WotAv.Publication.Documents

/-!
# The durable state (`src/publication/state.ts`)
-/

namespace WotAv.Publication

inductive RegistrationStatus
  | pending
  | active
  | stale
  | retired
  | conflict
  deriving DecidableEq, Repr

structure Intent where
  producer : ThingDescription
  digest : String
  at_ : Nat
  freshUntil : Nat
  retainUntil : Nat
  deriving DecidableEq

structure RegistrationState where
  deviceId : String
  producer : ThingDescription
  digest : String
  etag : Option Nat := none
  publishedAt : Nat
  freshUntil : Nat
  retainUntil : Nat
  expiresAt : Option Int := none
  status : RegistrationStatus
  failure : Option (String × Option Nat) := none
  intent : Option Intent := none
  deriving DecidableEq

structure PublicationState where
  owner : String
  revision : Nat
  inventoryRevision : Int
  registrations : List (String × RegistrationState)
  deriving DecidableEq

def MAX_SAFE_INTEGER : Nat := 9007199254740991

def safe (n : Nat) : Bool := n ≤ MAX_SAFE_INTEGER

end WotAv.Publication
