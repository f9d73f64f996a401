import Cohort.Hash.Sha256

/-!
# Credentials

Nodes of one cluster share a secret. A node that subscribes to another proves that it knows the
secret by a password made from its own name and the secret, never by the secret itself.
-/

namespace Cohort

/-- Who a node says it is, and its proof. -/
structure Credentials where
  nodeName : String
  /-- Empty when the node has no secret. -/
  password : String
  deriving DecidableEq, Repr

namespace Credentials

/-- The password for a name and a secret, through the given digest: the hexadecimal digest of the
name followed by the secret. -/
def passwordThrough (digest : Bytes → Bytes) (nodeName secret : String) : String :=
  (digest (Bytes.ofText nodeName ++ Bytes.ofText secret)).toHex

/-- Whether a password was made for this name with `secret`, through the given digest. A node
without a secret accepts every password. -/
def isAuthenticThrough (digest : Bytes → Bytes) (credentials : Credentials) :
    (secret : Option String) → Bool
  | none => true
  | some secret => passwordThrough digest credentials.nodeName secret = credentials.password

/-- The password for a name and a secret. -/
def passwordFor (nodeName secret : String) : String :=
  passwordThrough Sha256.digest nodeName secret

/-- The credentials that a node presents, given the secret it knows, through the given digest. -/
def makeThrough (digest : Bytes → Bytes) (nodeName : String) (secret : Option String) :
    Credentials where
  nodeName := nodeName
  password := (secret.map (passwordThrough digest nodeName)).getD ""

/-- The credentials a node presents, given the secret it knows. -/
def make (nodeName : String) (secret : Option String) : Credentials :=
  makeThrough Sha256.digest nodeName secret

/-- Whether a password was made for this name with `secret`. -/
def isAuthentic (credentials : Credentials) (secret : Option String) : Bool :=
  credentials.isAuthenticThrough Sha256.digest secret

end Credentials

end Cohort
