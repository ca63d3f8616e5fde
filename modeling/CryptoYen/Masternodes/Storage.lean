import CryptoYen.Masternodes.Elections
import CryptoYen.Masternodes.Winners
import CryptoYen.Primitives.Format

set_option autoImplicit false

namespace CryptoYen

namespace Format

-- The list has no payeeLevel: reading leaves the one of the constructor.
def paymentWinner : Codec String CMasternodePaymentWinner :=
  (txIn.pair (int32.pair (bytes.pair bytes))).via
    (fun winner => (winner.vinMasternode, winner.nBlockHeight, winner.payee, winner.vchSig))
    fun (vinMasternode, nBlockHeight, payee, vchSig) =>
      ⟨vinMasternode, nBlockHeight, payee, vchSig, MASTERNODE_UNSPECIFIED⟩

def payee : Codec String CMasternodePayee :=
  (bytes.pair (uint32.pair int32)).via (fun p => (p.scriptPubKey, p.mnlevel, p.nVotes))
    fun (scriptPubKey, mnlevel, nVotes) => ⟨scriptPubKey, mnlevel, nVotes⟩

def blockPayees : Codec String CMasternodeBlockPayees :=
  (int32.pair (vector payee)).via (fun block => (block.nBlockHeight, block.vecPayments))
    fun (nBlockHeight, vecPayments) => ⟨nBlockHeight, vecPayments⟩

def payments : Codec String CMasternodePayments :=
  (Codec.pair (.map BitVec.toNat streamFailures MAX_SIZE uint256 paymentWinner)
    (.map id streamFailures MAX_SIZE int32 blockPayees)).via
    (fun p => (p.mapMasternodePayeeVotes, p.mapMasternodeBlocks)) fun (votes, blocks) => ⟨votes, blocks⟩

def forgetLevel (winner : CMasternodePaymentWinner) : CMasternodePaymentWinner :=
  { winner with payeeLevel := MASTERNODE_UNSPECIFIED }

theorem paymentWinner_back (winner : CMasternodePaymentWinner) :
    paymentWinner.back winner = forgetLevel winner := by
  simp only [paymentWinner, Codec.via, Codec.pair, txIn_back, bytes_back]
  rfl

theorem payee_back (p : CMasternodePayee) : payee.back p = p := by
  simp only [payee, Codec.via, Codec.pair, bytes_back]
  rfl

theorem blockPayees_back (block : CMasternodeBlockPayees) : blockPayees.back block = block := by
  have same : block.vecPayments.map payee.back = block.vecPayments :=
    (List.map_congr_left fun p _ => payee_back p).trans (List.map_id _)
  simp only [blockPayees, vector, Codec.list, Codec.via, Codec.pair, same]
  rfl

theorem payments_back_votes (p : CMasternodePayments) (hash : Uint256) :
    (payments.back p).mapMasternodePayeeVotes.lookup hash =
      (p.mapMasternodePayeeVotes.lookup hash).map forgetLevel := by
  refine (Codec.lookup_map_back _ _ _ _ _ uint256_back _ hash).trans ?_
  rw [funext paymentWinner_back]

theorem payments_back_blocks (p : CMasternodePayments) (nBlockHeight : Int) :
    (payments.back p).mapMasternodeBlocks.lookup nBlockHeight =
      p.mapMasternodeBlocks.lookup nBlockHeight := by
  refine (Codec.lookup_map_back _ _ _ _ _ (fun _ => rfl) _ nBlockHeight).trans ?_
  rw [funext blockPayees_back]
  exact Option.map_id'

end Format

namespace CMasternodePaymentWinner

structure Typed (winner : CMasternodePaymentWinner) : Prop where
  n : winner.vinMasternode.prevout.n < 256 ^ 4
  nSequence : winner.vinMasternode.nSequence < 256 ^ 4
  nBlockHeight : Format.Int32 winner.nBlockHeight
  payeeLevel : winner.payeeLevel < 256 ^ 4
  scriptSig : winner.vinMasternode.scriptSig.length < 256 ^ 8
  payee : winner.payee.length < 256 ^ 8
  vchSig : winner.vchSig.length < 256 ^ 8

structure Fits (winner : CMasternodePaymentWinner) : Prop where
  scriptSig : winner.vinMasternode.scriptSig.length ≤ MAX_SIZE
  payee : winner.payee.length ≤ MAX_SIZE
  vchSig : winner.vchSig.length ≤ MAX_SIZE

end CMasternodePaymentWinner

namespace CMasternodeBlockPayees

structure Typed (block : CMasternodeBlockPayees) : Prop where
  nBlockHeight : Format.Int32 block.nBlockHeight
  vecPayments : block.vecPayments.length < 256 ^ 8
  payees : ∀ p ∈ block.vecPayments,
    p.scriptPubKey.length < 256 ^ 8 ∧ p.mnlevel < 256 ^ 4 ∧ Format.Int32 p.nVotes

structure Fits (block : CMasternodeBlockPayees) : Prop where
  vecPayments : block.vecPayments.length ≤ MAX_SIZE
  payees : ∀ p ∈ block.vecPayments, p.scriptPubKey.length ≤ MAX_SIZE

end CMasternodeBlockPayees

namespace CMasternodePayments

structure Typed (p : CMasternodePayments) : Prop where
  winnerCount : p.mapMasternodePayeeVotes.entries.length < 256 ^ 8
  winners : ∀ hash winner, p.mapMasternodePayeeVotes.lookup hash = some winner → winner.Typed
  blockCount : p.mapMasternodeBlocks.entries.length < 256 ^ 8
  blocks : ∀ nBlockHeight block, p.mapMasternodeBlocks.lookup nBlockHeight = some block →
    Format.Int32 nBlockHeight ∧ block.Typed

structure Fits (p : CMasternodePayments) : Prop where
  winnerCount : p.mapMasternodePayeeVotes.entries.length ≤ MAX_SIZE
  winners : ∀ hash winner, p.mapMasternodePayeeVotes.lookup hash = some winner → winner.Fits
  blockCount : p.mapMasternodeBlocks.entries.length ≤ MAX_SIZE
  blocks : ∀ nBlockHeight block, p.mapMasternodeBlocks.lookup nBlockHeight = some block → block.Fits

end CMasternodePayments

namespace Format

theorem paymentWinner_typed (winner : CMasternodePaymentWinner) (typed : winner.Typed) :
    paymentWinner.Typed winner :=
  ⟨⟨⟨uint256_typed _, typed.n⟩, (bytes_typed _).mpr typed.scriptSig, typed.nSequence⟩,
    typed.nBlockHeight, (bytes_typed _).mpr typed.payee, (bytes_typed _).mpr typed.vchSig⟩

theorem paymentWinner_fits (winner : CMasternodePaymentWinner) :
    paymentWinner.Fits winner ↔ winner.Fits := by
  constructor
  · rintro ⟨⟨_, scriptSig, _⟩, _, script, vchSig⟩
    exact ⟨(bytes_fits _).mp scriptSig, (bytes_fits _).mp script, (bytes_fits _).mp vchSig⟩
  · rintro ⟨scriptSig, script, vchSig⟩
    exact ⟨⟨⟨trivial, trivial⟩, (bytes_fits _).mpr scriptSig, trivial⟩, trivial,
      (bytes_fits _).mpr script, (bytes_fits _).mpr vchSig⟩

theorem blockPayees_typed (block : CMasternodeBlockPayees) (typed : block.Typed) :
    blockPayees.Typed block := by
  refine ⟨typed.nBlockHeight, typed.vecPayments, fun p member => ?_⟩
  obtain ⟨script, mnlevel, nVotes⟩ := typed.payees p member
  exact ⟨(bytes_typed _).mpr script, mnlevel, nVotes⟩

theorem blockPayees_fits (block : CMasternodeBlockPayees) :
    blockPayees.Fits block ↔ block.Fits := by
  constructor
  · rintro ⟨_, short, payees⟩
    exact ⟨short, fun p member => (bytes_fits _).mp (payees p member).1⟩
  · rintro ⟨short, payees⟩
    exact ⟨trivial, short, fun p member => ⟨(bytes_fits _).mpr (payees p member), trivial, trivial⟩⟩

theorem payments_typed (p : CMasternodePayments) (typed : p.Typed) : payments.Typed p := by
  refine ⟨(Codec.map_typed _ _ _ _ _ _).mpr ⟨typed.winnerCount, fun hash winner stored => ?_⟩,
    (Codec.map_typed _ _ _ _ _ _).mpr ⟨typed.blockCount, fun nBlockHeight block stored => ?_⟩⟩
  · exact ⟨uint256_typed hash, paymentWinner_typed winner (typed.winners hash winner stored)⟩
  · have inside := typed.blocks nBlockHeight block stored
    exact ⟨inside.1, blockPayees_typed block inside.2⟩

theorem payments_fits (p : CMasternodePayments) : payments.Fits p ↔ p.Fits := by
  have votes := Codec.map_fits BitVec.toNat streamFailures MAX_SIZE uint256 paymentWinner
    p.mapMasternodePayeeVotes
  have blocks := Codec.map_fits id streamFailures MAX_SIZE int32 blockPayees p.mapMasternodeBlocks
  constructor
  · rintro ⟨winners_fit, blocks_fit⟩
    obtain ⟨winnerCount, winners⟩ := votes.mp winners_fit
    obtain ⟨blockCount, payees⟩ := blocks.mp blocks_fit
    exact ⟨winnerCount,
      fun hash winner stored => (paymentWinner_fits winner).mp (winners hash winner stored).2,
      blockCount,
      fun nBlockHeight block stored => (blockPayees_fits block).mp (payees nBlockHeight block stored).2⟩
  · rintro ⟨winnerCount, winners, blockCount, payees⟩
    exact ⟨votes.mpr ⟨winnerCount, fun hash winner stored =>
        ⟨trivial, (paymentWinner_fits winner).mpr (winners hash winner stored)⟩⟩,
      blocks.mpr ⟨blockCount, fun nBlockHeight block stored =>
        ⟨trivial, (blockPayees_fits block).mpr (payees nBlockHeight block stored)⟩⟩⟩

end Format

end CryptoYen
