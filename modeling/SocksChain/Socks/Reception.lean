import SocksChain.Channel.Dialogue
import SocksChain.Socks.Negotiation

/-!
The front end's conversation with a client: the negotiation run over a channel until the client's
intent is known. It ends on every channel, because what can lack bytes is never longer than 512
bytes and a channel that gives none has ended.
-/

namespace SocksChain.Socks

open Channel

inductive Intent where
  | connect (destination : Endpoint)
  | associate (bound : Ip.Socket)
  | register (real : Endpoint)
deriving DecidableEq

/-- What a client was admitted for. -/
structure Admission where
  intent : Intent
  /-- What the client sent after its request. -/
  pending : Bytes
  authenticated : Bool
deriving DecidableEq

/-- Converses with a client that has sent `buf` so far. A UDP association is bound as `relay`
says. A registration is answered by the caller, once it is stored. -/
def Negotiation.converse (relay : Except IoError Ip.Socket) (m : Negotiation) (buf : Bytes) :
    Exchange Admission :=
  match h : (m.advance buf).outcome with
  | .abort f => Exchange.fail (.socks f)
  | .needMore =>
    Exchange.read longestIncomplete >>= fun more =>
      if he : more = [] then Exchange.fail (.protocol (.closedDuring m.stage.name))
      else
        have : longestIncomplete + 1 - (buf ++ more).length < longestIncomplete + 1 - buf.length := by
          have hb := le_of_needMore h
          have hm := List.length_pos_iff.mpr he
          rw [List.length_append]
          omega
        converse relay m (buf ++ more)
  | .reply message =>
    have := remaining_lt_of_reply h
    Exchange.send message >>= fun _ =>
      converse relay (m.advance buf).machine (m.advance buf).rest
  | .connect message destination => do
    Exchange.send message
    return ⟨.connect destination, (m.advance buf).rest, m.authenticated⟩
  | .associate _ =>
    match relay with
    | .error e => Exchange.failIo e
    | .ok bound => do
      Exchange.send (associateReply bound)
      return ⟨.associate bound, (m.advance buf).rest, m.authenticated⟩
  | .register real => return ⟨.register real, (m.advance buf).rest, m.authenticated⟩
  | .reject message f => do
    Exchange.send message
    Exchange.fail (.socks f)
termination_by (m.stage.remaining, longestIncomplete + 1 - buf.length)
decreasing_by
  · exact Prod.Lex.right _ this
  · exact Prod.Lex.left _ _ this

end SocksChain.Socks
