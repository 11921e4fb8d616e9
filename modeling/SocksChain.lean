import SocksChain.Alias
import SocksChain.Aliases
import SocksChain.Approach
import SocksChain.Association
import SocksChain.Bytes
import SocksChain.Channel.Dialogue
import SocksChain.Channel.Link
import SocksChain.Channel.Sink
import SocksChain.Channel.Source
import SocksChain.Cipher.Checked
import SocksChain.Cipher.Entropy
import SocksChain.Cipher.Session
import SocksChain.Cipher.Stream
import SocksChain.Cipher.Suite
import SocksChain.CommandLine
import SocksChain.Connection
import SocksChain.Crypto.Aead
import SocksChain.Crypto.Aes
import SocksChain.Crypto.ChaCha20
import SocksChain.Crypto.Gcm
import SocksChain.Crypto.Md5
import SocksChain.Crypto.Padding
import SocksChain.Crypto.Rc4
import SocksChain.Crypto.Sha1
import SocksChain.Crypto.Sha256
import SocksChain.Dialling
import SocksChain.Directory
import SocksChain.Endpoint
import SocksChain.Failure
import SocksChain.Inspect
import SocksChain.Ip.Address
import SocksChain.Ip.Text
import SocksChain.Json.Number
import SocksChain.Json.Reader
import SocksChain.Json.Record
import SocksChain.Json.Token
import SocksChain.Json.Value
import SocksChain.Json.Writer
import SocksChain.Main
import SocksChain.Network
import SocksChain.Node
import SocksChain.Origins
import SocksChain.Proofs.Aliases.Agreement
import SocksChain.Proofs.Aliases.Bookkeeping
import SocksChain.Proofs.Aliases.Collision
import SocksChain.Proofs.Aliases.Decoding
import SocksChain.Proofs.Aliases.Forwarding
import SocksChain.Proofs.Aliases.Inverse
import SocksChain.Proofs.Aliases.Ledger
import SocksChain.Proofs.Aliases.Marks
import SocksChain.Proofs.Aliases.Provenance
import SocksChain.Proofs.Aliases.Told
import SocksChain.Proofs.Association
import SocksChain.Proofs.Association.Transparency
import SocksChain.Proofs.Channel.Blaming
import SocksChain.Proofs.Channel.Delivery
import SocksChain.Proofs.Channel.Encounter
import SocksChain.Proofs.Channel.Ending
import SocksChain.Proofs.Channel.Faithful
import SocksChain.Proofs.Channel.Hearing
import SocksChain.Proofs.Channel.Likeness
import SocksChain.Proofs.Channel.Reading
import SocksChain.Proofs.Channel.Recognizing
import SocksChain.Proofs.Channel.Saying
import SocksChain.Proofs.Channel.Sealing
import SocksChain.Proofs.Channel.Sending
import SocksChain.Proofs.Channel.Waiting
import SocksChain.Proofs.Channel.Writing
import SocksChain.Proofs.Cipher.Checks
import SocksChain.Proofs.Cipher.Cutting
import SocksChain.Proofs.Cipher.Datagram
import SocksChain.Proofs.Cipher.Frames
import SocksChain.Proofs.Cipher.Integrity
import SocksChain.Proofs.Cipher.Nonces
import SocksChain.Proofs.Cipher.Refusals
import SocksChain.Proofs.Cipher.RoundTrip
import SocksChain.Proofs.Cipher.Schedule
import SocksChain.Proofs.Endpoint
import SocksChain.Proofs.Ip.Text
import SocksChain.Proofs.Node.Course
import SocksChain.Proofs.Node.Dialling
import SocksChain.Proofs.Node.House
import SocksChain.Proofs.Node.Passage
import SocksChain.Proofs.Node.Restoration
import SocksChain.Proofs.Node.Traffic
import SocksChain.Proofs.Node.Trust
import SocksChain.Proofs.Node.Visit
import SocksChain.Proofs.Node.WhiteList
import SocksChain.Proofs.Origins
import SocksChain.Proofs.Relay.Carriage
import SocksChain.Proofs.Relay.Conservation
import SocksChain.Proofs.Relay.Course
import SocksChain.Proofs.Relay.Flushing
import SocksChain.Proofs.Relay.History
import SocksChain.Proofs.Relay.Independence
import SocksChain.Proofs.Relay.Settling
import SocksChain.Proofs.Relay.Vanishing
import SocksChain.Proofs.Settings
import SocksChain.Proofs.Socks.Acceptance
import SocksChain.Proofs.Socks.Accord
import SocksChain.Proofs.Socks.Answers
import SocksChain.Proofs.Socks.Appetite
import SocksChain.Proofs.Socks.Discretion
import SocksChain.Proofs.Socks.Errand
import SocksChain.Proofs.Socks.Feeding
import SocksChain.Proofs.Socks.Finality
import SocksChain.Proofs.Socks.Grammar
import SocksChain.Proofs.Socks.Packet
import SocksChain.Proofs.Socks.Receipt
import SocksChain.Proofs.Socks.Reception
import SocksChain.Proofs.Socks.Steady
import SocksChain.Proofs.Socks.Verdict
import SocksChain.Proofs.Socks.Wire
import SocksChain.Proofs.Store.Balance
import SocksChain.Proofs.Store.Capacity
import SocksChain.Proofs.Store.Contents
import SocksChain.Proofs.Store.Eviction
import SocksChain.Proofs.Store.Lifetime
import SocksChain.Proofs.Store.Recency
import SocksChain.Proofs.Store.Retention
import SocksChain.Proofs.Store.Room
import SocksChain.Proofs.Store.Selection
import SocksChain.Proofs.Store.Sweeping
import SocksChain.Proofs.Store.Unseen
import SocksChain.Relay.Duplex
import SocksChain.Relay.Flow
import SocksChain.Relay.Joint
import SocksChain.Routing
import SocksChain.Settings.Basic
import SocksChain.Settings.Json
import SocksChain.Socks.Address
import SocksChain.Socks.Negotiation
import SocksChain.Socks.Packet
import SocksChain.Socks.Reception
import SocksChain.Socks.Requester
import SocksChain.Store.ByAge
import SocksChain.Store.ByUse
import SocksChain.Store.Registry
import SocksChain.Store.Shards
import SocksChain.Store.Sweeper
import SocksChain.Store.Table
import SocksChain.Tally
import SocksChain.Text.Decimal
import SocksChain.Text.Extending
import SocksChain.Text.Hex
import SocksChain.Text.Invisible
import SocksChain.Text.Quoted
import SocksChain.Text.Spans
import SocksChain.Tunnel
import SocksChain.Verbosity
