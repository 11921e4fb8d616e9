import SocksChain.Cipher.Session
import SocksChain.Settings.Basic
import SocksChain.Text.Quoted

/-!
Values as they are shown in reports, with the names of their parts. Passwords and secrets are never
shown.
-/

namespace SocksChain.Inspect

open Text.Quoted (encode)

/-- A record with named parts; `more` says that it has others, which are not shown. -/
def record (name : String) (parts : List (String × String)) (more : Bool) : String :=
  let body := String.intercalate ", " (parts.map fun (k, v) => k ++ ": " ++ v)
  name ++ " \x7b " ++ body ++ (if more then ", .. \x7d" else " \x7d")

def option {α : Type} (f : α → String) : Option α → String
  | some a => "Some(" ++ f a ++ ")"
  | none => "None"

def flag (b : Bool) : String := if b then "true" else "false"

def redacted : String := encode "<redacted>"

def credentials (c : Credentials) : String :=
  record "Credentials" [("username", encode c.username), ("password", redacted)] false

def cipher (c : CipherSettings) : String :=
  record "CipherConfig" [("name", encode c.name), ("secret", redacted)] false

def endpoint (e : Endpoint) : String :=
  record "UnresolvedEndpoint" [("host", encode e.host), ("port", toString e.port.toNat)] false

def backend (b : Backend) : String :=
  record "AuthenticEndpoint"
    [("endpoint", endpoint b.endpoint), ("credentials", option credentials b.credentials)] false

def suite : Cipher.Suite → String
  | .aes128Gcm => "Aes128Gcm"
  | .aes192Gcm => "Aes192Gcm"
  | .aes256Gcm => "Aes256Gcm"
  | .chacha20Poly1305 => "ChaCha20IetfPoly1305"
  | .rc4Md5 => "Rc4Md5"

def session (s : Cipher.Suite) (direction : String) (datagrams : Bool) : String :=
  record "CipherSession"
    [("kind", suite s), ("direction", direction), ("udp_mode", flag datagrams)] true

def pair (p : Cipher.Pair) : String :=
  record "CipherPair"
    [("encryptor", session p.encryptor.key.suite "Encrypt" p.encryptor.isDatagram),
      ("decryptor", session p.decryptor.key.suite "Decrypt" p.decryptor.isDatagram)] false

/-- A collaborator that tells a backend what aliases stand for. -/
def remoteSupport (b : Backend) (c : Option CipherSettings) : String :=
  record "RemoteSocksSupport" [("backend", backend b), ("cipher", option cipher c)] true

def route {S : Type} : Route S → String
  | .direct => "Direct"
  | .via hop =>
    "Proxy(" ++ record "UpstreamSupport"
      [("endpoint", backend hop.backend), ("support", flag hop.support.isSome)] false ++ ")"

end SocksChain.Inspect
