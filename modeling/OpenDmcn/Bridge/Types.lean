import OpenDmcn.Identity.Record
import OpenDmcn.Message.Plaintext

/-! The bridge's records (`bridge/types.go`, `bridge/audit.go`): what it attests, what it tells the
sender of a message, and what it enters in its audit trail. -/

namespace Dmcn.Pb

open Go

structure BridgeDeliveryReceipt where
  originalMessageId : Bytes
  recipientEmail : String
  bridgeAddress : String
  deliveredAt : Int64
  success : Bool
  errorDetail : String
  bridgeSignature : Bytes
  bridgeCredential : Option Pb.Credential
  deriving DecidableEq, Inhabited

deriving instance Countable for BridgeDeliveryReceipt

end Dmcn.Pb

namespace Dmcn.Bridge

open Go

structure Audience where
  to' : List String
  cc : List String
  deriving DecidableEq

structure AuditEvent where
  time : Time
  action : Bytes
  from' : Bytes
  to' : Bytes
  senderIP : Bytes
  trustTier : ℤ
  success : Bool
  detail : Bytes
  deriving DecidableEq

structure BridgeDeliveryReceipt where
  originalMessageID : Fixed 16
  recipientEmail : String
  bridgeAddress : String
  deliveredAt : Time
  success : Bool
  errorDetail : String
  bridgeSignature : Fixed 64
  bridgeCredential : Option Credential
  deriving DecidableEq

namespace BridgeDeliveryReceipt

/-- What is signed of a receipt: all but the signature and the credential, which has one of its
own. -/
def signableBytes (codec : Codec Pb.BridgeDeliveryReceipt) (r : BridgeDeliveryReceipt) : Bytes :=
  codec.marshalDeterministic
    ⟨r.originalMessageID.val, r.recipientEmail, r.bridgeAddress, r.deliveredAt.unix, r.success,
      r.errorDetail, [], none⟩

end BridgeDeliveryReceipt

end Dmcn.Bridge
