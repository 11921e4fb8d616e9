import SocksChain.Text.Hex

/-!
What can go wrong, as causes: breaches of the SOCKS5 protocol, input and output errors, and the
failures of a whole connection. The wording of each is given by one function per type.
-/

namespace SocksChain

inductive IoKind where
  | notFound
  | permissionDenied
  | connectionRefused
  | connectionReset
  | connectionAborted
  | notConnected
  | hostUnreachable
  | networkUnreachable
  | networkDown
  | addressInUse
  | addressNotAvailable
  | brokenPipe
  | alreadyExists
  | wouldBlock
  | invalidInput
  | invalidData
  | timedOut
  | writeZero
  | interrupted
  | unsupported
  | unexpectedEof
  | outOfMemory
  | other
deriving DecidableEq

/-- An error of a channel, with a text of its own where it carries one. -/
structure IoError where
  kind : IoKind
  text : Option String := none
deriving DecidableEq

namespace IoKind

def message : IoKind → String
  | notFound => "entity not found"
  | permissionDenied => "permission denied"
  | connectionRefused => "connection refused"
  | connectionReset => "connection reset"
  | connectionAborted => "connection aborted"
  | notConnected => "not connected"
  | hostUnreachable => "host unreachable"
  | networkUnreachable => "network unreachable"
  | networkDown => "network down"
  | addressInUse => "address in use"
  | addressNotAvailable => "address not available"
  | brokenPipe => "broken pipe"
  | alreadyExists => "entity already exists"
  | wouldBlock => "operation would block"
  | invalidInput => "invalid input parameter"
  | invalidData => "invalid data"
  | timedOut => "timed out"
  | writeZero => "write zero"
  | interrupted => "operation interrupted"
  | unsupported => "unsupported"
  | unexpectedEof => "unexpected end of file"
  | outOfMemory => "out of memory"
  | other => "other error"

/-- Whether a write that fails so has lost its peer for good. -/
def peerGone : IoKind → Bool
  | brokenPipe | connectionReset | connectionAborted | notConnected | writeZero => true
  | _ => false

end IoKind

namespace IoError

def message (e : IoError) : String := e.text.getD e.kind.message

def earlyEof : IoError := ⟨.unexpectedEof, some "early eof"⟩

end IoError

namespace Socks

/-- A breach of the SOCKS5 protocol. -/
inductive Fault where
  | version (expected got : UInt8)
  | noMethod
  | authentication (user : String)
  | notUtf8 (field : String)
  | command (code : UInt8)
  | addressType (code : UInt8)
  | domainLength (length : Nat)
  | outOfStage (stage : String)
  | fragment
  | shortPacket
deriving DecidableEq

def Fault.message : Fault → String
  | version expected got =>
    s!"invalid SOCKS version: expected {expected.toNat}, got {got.toNat}"
  | noMethod => "no acceptable authentication methods"
  | authentication user => "authentication failed for user: " ++ user
  | notUtf8 field => "invalid UTF-8 in " ++ field
  | command code => "command not supported: 0x" ++ Text.Hex.write [code]
  | addressType code => "address type not supported: 0x" ++ Text.Hex.write [code]
  | domainLength n => s!"domain length invalid: {n}"
  | outOfStage stage => "unexpected message in state " ++ stage
  | fragment => "fragmented UDP datagrams are not supported"
  | shortPacket => "UDP packet too short"

end Socks

inductive ProtocolCause where
  | closedDuring (stage : String)
  | passwordNotOffered (backend : String)
  | other (text : String)
deriving DecidableEq

inductive CipherCause where
  | tagMismatch
  | shortDatagram
  | missingIv
  | sessionClosed
  | other (text : String)
deriving DecidableEq

inductive ConfigCause where
  | noPort (text : String)
  | invalidPort (text : String)
  | noHost (text : String)
  | longCredentials (backend : String)
  | unreadable
  | malformed
  | noObfuscationPorts
  | noHostSuffix
  | noConnectTimeout
  | noHotCapacity
  | notBound
  | other (text : String)
deriving DecidableEq

/-- Why a connection, or the node itself, came to its end. -/
inductive Failure where
  | protocol (cause : ProtocolCause)
  | socks (fault : Socks.Fault)
  | noRoute (destination : String)
  | connectTimeout (endpoint : String) (milliseconds : Nat)
  | rejected (endpoint : String) (code : UInt8)
  | authRejected (backend : String)
  | unsupportedCipher (name : String)
  | cipher (cause : CipherCause)
  | config (cause : ConfigCause)
  | registration (text : String)
  | io (error : IoError)
deriving DecidableEq

def ProtocolCause.message : ProtocolCause → String
  | closedDuring stage => "client closed during " ++ stage
  | passwordNotOffered backend => backend ++ " selected password auth that was not offered"
  | other text => text

def CipherCause.message : CipherCause → String
  | tagMismatch => "authentication tag mismatch"
  | shortDatagram => "datagram too short"
  | missingIv => "datagram shorter than iv"
  | sessionClosed => "session closed after integrity failure"
  | other text => text

def ConfigCause.message : ConfigCause → String
  | noPort text => s!"endpoint `{text}` has no port"
  | invalidPort text => s!"endpoint `{text}` has an invalid port"
  | noHost text => s!"endpoint `{text}` has no host"
  | longCredentials backend => s!"credentials for {backend} are too long"
  | unreadable => "cannot read"
  | malformed => "invalid config"
  | noObfuscationPorts => "fake_endpoint.obfuscation_ports must not be empty"
  | noHostSuffix => "fake_endpoint.host_suffix must not be empty"
  | noConnectTimeout => "upstream.connect_timeout_ms must be positive"
  | noHotCapacity => "cache.hot_capacity must be positive"
  | notBound => "proxy server not bound"
  | other text => text

namespace Failure

def message : Failure → String
  | protocol cause => "protocol error: " ++ cause.message
  | socks fault => "socks5: " ++ fault.message
  | noRoute destination => "no upstream available for " ++ destination
  | connectTimeout endpoint ms => s!"connect to {endpoint} timed out after {ms}ms"
  | rejected endpoint code => s!"upstream {endpoint} rejected request with reply 0x{Text.Hex.write [code]}"
  | authRejected backend => s!"backend {backend} rejected credentials"
  | unsupportedCipher name => "unsupported cipher: " ++ name
  | cipher cause => "cipher error: " ++ cause.message
  | config cause => "configuration error: " ++ cause.message
  | registration text => "fake endpoint registration failed: " ++ text
  | io error => "io error: " ++ error.message

def isProtocol : Failure → Bool
  | protocol _ | socks _ => true
  | _ => false

/-- Whether the next hop, or the lack of one, is to blame. -/
def isBackend : Failure → Bool
  | noRoute _ | connectTimeout _ _ | rejected _ _ | authRejected _ => true
  | _ => false

/-- A ciphered channel reports what its cipher refuses as invalid data. -/
def isCipher : Failure → Bool
  | cipher _ | unsupportedCipher _ => true
  | io error => error.kind = .invalidData
  | _ => false

/-- The error that a channel reports for a failure. -/
def toIo : Failure → IoError
  | io error => error
  | cipher cause => ⟨.invalidData, some cause.message⟩
  | other => ⟨.other, some other.message⟩

end Failure

end SocksChain
