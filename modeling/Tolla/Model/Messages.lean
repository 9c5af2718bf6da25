import Tolla.Model.World

/-!
# The messages of the protocol

`tolla_proto/src/messages.proto`, as `prost` turns it into Rust types.
-/

namespace Tolla.Proto

structure Certificate where
  intent : String
  request : List UInt8
  rootCert : List UInt8
  deriving DecidableEq, Repr

structure Addresses where
  ip : List String
  deriving DecidableEq, Repr

structure Error where
  error : String
  deriving DecidableEq, Repr

structure NewUser where
  userid : String
  email : String
  deriving DecidableEq, Repr

structure Intent where
  id : String
  intent : String
  deriving DecidableEq, Repr

structure Consent where
  id : String
  purpose : List String
  lifetime : UInt64
  marketing : Bool
  profiling : Bool
  «public» : Bool
  deriving DecidableEq, Repr

/-- `from_client::Msg`. -/
inductive Request where
  | consent (c : Consent)
  | certificateRequest (r : Certificate)
  | intent (i : Intent)
  | user (u : NewUser)
  | requestIps (b : Bool)
  deriving DecidableEq, Repr

structure FromClient where
  msg : Option Request
  deriving DecidableEq, Repr

/-- `to_client::Msg`. -/
inductive Body where
  | error (e : Error)
  | certificate (c : Certificate)
  | ips (a : Addresses)
  deriving DecidableEq, Repr

structure ToClient where
  success : Bool
  msg : Option Body
  deriving DecidableEq, Repr

end Tolla.Proto
