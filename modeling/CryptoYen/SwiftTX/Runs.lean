import CryptoYen.Library.Machine
import CryptoYen.SwiftTX.Expiry

set_option autoImplicit false

namespace CryptoYen

inductive SwiftMessage
  | ix (tx : CTransaction)
  | txlvote (vote : CConsensusVote)
  | submit (tx : CTransaction)
  | clean
  deriving DecidableEq, Repr

abbrev SwiftLabel := SwiftContext × SwiftMessage

def SwiftContext.handle [TxHasher] (ctx : SwiftContext) (s : SwiftState) :
    SwiftMessage → SwiftState
  | .ix tx => ctx.processRequest s tx
  | .txlvote vote => ctx.processVote s vote
  | .submit tx => ctx.submitRequest s tx
  | .clean => ctx.cleanTransactionLocksList s

def SwiftState.step [TxHasher] (s : SwiftState) (label : SwiftLabel) : Option SwiftState :=
  some (label.1.handle s label.2)

namespace ConflictingRequests

@[reducible] def valueHasher : TxHasher :=
  ⟨fun tx => BitVec.ofInt 256 (tx.vout.map CTxOut.nValue).sum⟩

def script : CScript := [0x76, 0xa9, 0x14] ++ List.replicate 20 0 ++ [0x88, 0xac]

def coin : COutPoint := ⟨1, 0⟩

def funding : CTransaction := ⟨1, [⟨⟨2, 0⟩, [], 0xffffffff⟩], [⟨2 * COIN, [OP_1]⟩], 0⟩

def spending (scriptSig : CScript) (nValue : Int) : CTransaction :=
  ⟨1, [⟨coin, scriptSig, 0xffffffff⟩], [⟨nValue, script⟩], 0⟩

def first : CTransaction := spending [] 100000000

-- Its scriptSig fails.
def second : CTransaction := spending [OP_RETURN] 100000001

def context (getTime : Int) : SwiftContext where
  fLiteMode := false
  fBlockchainSynced := true
  getTime := getTime
  chainActive := [⟨9, 100, 5, 1613150297, 0x1e0fffff, 0⟩]
  fLargeWork := false
  nMaxValueSpork := 1000
  getTransaction := fun txid => if txid = 1 then some (funding, 8) else none
  getInputAge := fun _ => 20
  acceptToMemoryPool := fun tx => tx == first
  getMasternodeRank := fun vin _ => vin.prevout.n
  findMasternode := fun _ => some []
  verifyMessage := fun _ signature _ => signature == [1]
  fMasterNode := false
  activeMasternode := ⟨⟨0, 0⟩, [], 0⟩
  signMessage := fun _ => none
  updatedTransaction := fun _ => false

def vote (masternode : Nat) (signature : List UInt8) : CConsensusVote :=
  ⟨⟨⟨50, masternode⟩, [], 0xffffffff⟩, 100000000, 84, signature⟩

def requests : List SwiftLabel := [(context 1000, .ix first), (context 2000, .ix second)]

end ConflictingRequests

end CryptoYen
