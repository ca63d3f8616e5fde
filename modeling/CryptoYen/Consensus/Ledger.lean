import CryptoYen.Consensus.Connect

set_option autoImplicit false

namespace CryptoYen

namespace CCoinsView

theorem spendInputs_some (vin : List CTxIn) (view next : CCoinsView) (txundo : CTxUndo)
    (spent : spendInputs vin view = some (next, txundo)) (out : COutPoint) :
    (out ∈ vin.map CTxIn.prevout → next.coinAt out = none) ∧
      (out ∉ vin.map CTxIn.prevout → next.coinAt out = view.coinAt out) := by
  induction vin generalizing view txundo with
  | nil =>
      cases spent
      simp
  | cons txin rest ih =>
      obtain ⟨mid, undo, undos, taken, others, rfl⟩ := (spendInputs_cons _ _ _ _ _).mp spent
      have first := view.spendCoin_coinAt _ mid undo taken out
      obtain ⟨gone, kept⟩ := ih mid undos others
      rw [List.map_cons, List.mem_cons, not_or]
      constructor
      · intro listed
        by_cases later : out ∈ rest.map CTxIn.prevout
        · exact gone later
        · have here : out = txin.prevout := by
            rcases listed with here | there
            · exact here
            · exact absurd there later
          rw [kept later, first, if_pos here]
      · intro unlisted
        rw [kept unlisted.2, first, if_neg unlisted.1]

theorem spendTransaction_coinAt (view spent : CCoinsView) (tx : CTransaction) (undo : CTxUndo)
    (taken : view.spendTransaction tx = some (spent, undo)) (out : COutPoint) (txout : CTxOut)
    (present : spent.coinAt out = some txout) : view.coinAt out = some txout := by
  unfold spendTransaction at taken
  split at taken
  next =>
    cases taken
    exact present
  next =>
    obtain ⟨gone, kept⟩ := spendInputs_some tx.vin view spent undo taken out
    by_cases listed : out ∈ tx.vin.map CTxIn.prevout
    · rw [gone listed] at present
      cases present
    · rw [← kept listed]
      exact present

theorem coinAt_addOutputs [TxHasher] (view : CCoinsView) (tx : CTransaction) (nHeight : Nat)
    (out : COutPoint) (other : out.hash ≠ tx.getHash) :
    (view.addOutputs tx nHeight).coinAt out = view.coinAt out := by
  rw [coinAt, view.addOutputs_record, if_neg other]
  rfl

end CCoinsView

variable [TxHasher]

def Unwritten (written : List CTransaction) (tx : CTransaction) : Prop :=
  ∀ other ∈ written, other.getHash ≠ tx.getHash

/-- What the transactions written so far say about the coins: each coin is an output of one of them,
and what they spend is gone. -/
structure Ledger (written : List CTransaction) (view : CCoinsView) : Prop where
  source : ∀ out txout, view.coinAt out = some txout → ∃ tx ∈ written, tx.getHash = out.hash
  spent : ∀ tx ∈ written, tx.isCoinBase = false → ∀ out ∈ tx.prevouts,
    view.coinAt out = none ∧ ∃ parent ∈ written, parent.getHash = out.hash

namespace Ledger

variable {written : List CTransaction} {view : CCoinsView}

omit [TxHasher] in
theorem spendTransaction_inputs (tx : CTransaction) (spent : CCoinsView) (undo : CTxUndo)
    (spending : tx.isCoinBase = false)
    (taken : view.spendTransaction tx = some (spent, undo)) (out : COutPoint)
    (input : out ∈ tx.prevouts) :
    spent.coinAt out = none ∧ ∃ txout, view.coinAt out = some txout := by
  have inputs : CCoinsView.spendInputs tx.vin view = some (spent, undo) := by
    simpa [CCoinsView.spendTransaction, spending] using taken
  have isSome : (CCoinsView.spendInputs tx.vin view).isSome = true := by rw [inputs]; rfl
  obtain ⟨_, available⟩ := (CCoinsView.spendInputs_isSome tx.vin view).mp isSome
  obtain ⟨txin, inVin, rfl⟩ := List.mem_map.mp input
  have present := available txin inVin
  rw [CCoinsView.isAvailable_eq] at present
  exact ⟨(CCoinsView.spendInputs_some tx.vin view spent undo inputs _).1 input,
    Option.isSome_iff_exists.mp present⟩

theorem empty (hashBlock : Uint256) : Ledger [] (CCoinsView.empty hashBlock) where
  source := by
    intro out txout present
    cases present
  spent := by
    intro tx member
    cases member

theorem write (ledger : Ledger written view) (tx : CTransaction) (nHeight : Nat)
    (next : CCoinsView) (undo : CTxUndo) (unwritten : Unwritten written tx)
    (updated : view.updateCoins tx nHeight = some (next, undo)) :
    Ledger (tx :: written) next := by
  obtain ⟨spent, taken, rfl⟩ := view.updateCoins_some tx nHeight next undo updated
  constructor
  · intro out txout present
    by_cases same : out.hash = tx.getHash
    · exact ⟨tx, List.mem_cons_self, same.symm⟩
    · rw [spent.coinAt_addOutputs tx nHeight out same] at present
      obtain ⟨source, member, hash⟩ := ledger.source out txout
        (view.spendTransaction_coinAt spent tx undo taken out txout present)
      exact ⟨source, List.mem_cons_of_mem _ member, hash⟩
  · intro other member spending out input
    have before : spent.coinAt out = none ∧ ∃ parent ∈ written, parent.getHash = out.hash := by
      rcases List.mem_cons.mp member with rfl | member
      · obtain ⟨gone, txout, found⟩ :=
          spendTransaction_inputs other spent undo spending taken out input
        exact ⟨gone, ledger.source out txout found⟩
      · obtain ⟨gone, source⟩ := ledger.spent other member spending out input
        refine ⟨?_, source⟩
        by_contra present
        obtain ⟨txout, found⟩ := Option.ne_none_iff_exists'.mp present
        rw [view.spendTransaction_coinAt spent tx undo taken out txout found] at gone
        cases gone
    obtain ⟨gone, parent, parentMember, hash⟩ := before
    have apart : out.hash ≠ tx.getHash := fun same => unwritten parent parentMember (hash.trans same)
    rw [spent.coinAt_addOutputs tx nHeight out apart]
    exact ⟨gone, parent, List.mem_cons_of_mem _ parentMember, hash⟩

theorem write_block (ledger : Ledger written view) (nHeight : Nat) (vtx : List CTransaction)
    (last : CCoinsView) (vtxundo : List CTxUndo)
    (distinct : ((vtx.reverse ++ written).map CTransaction.getHash).Nodup)
    (updated : updateBlockCoins nHeight vtx view = some (last, vtxundo)) :
    Ledger (vtx.reverse ++ written) last := by
  induction vtx generalizing written view vtxundo with
  | nil =>
      cases updated
      exact ledger
  | cons tx rest ih =>
      obtain ⟨next, undo, undos, first, others, rfl⟩ :=
        (updateBlockCoins_cons _ _ _ _ _ _).mp updated
      rw [List.reverse_cons, List.append_assoc, List.singleton_append] at distinct ⊢
      have unwritten : Unwritten written tx := by
        intro other member same
        rw [List.map_append, List.map_cons] at distinct
        have apart := (List.nodup_cons.mp (List.nodup_append.mp distinct).2.1).1
        exact apart (same ▸ List.mem_map_of_mem member)
      exact ih (ledger.write tx nHeight next undo unwritten first) undos distinct others

theorem setBestBlock (ledger : Ledger written view) (hash : Uint256) :
    Ledger written (view.setBestBlock hash) := ⟨ledger.source, ledger.spent⟩

theorem unspent (ledger : Ledger written view) (out : COutPoint) (exists_coin : out.isNull = false)
    (available : view.isAvailable out = true) (tx : CTransaction) (member : tx ∈ written) :
    out ∉ tx.prevouts := by
  intro input
  cases coinbase : tx.isCoinBase with
  | false =>
      have gone := (ledger.spent tx member coinbase out input).1
      rw [CCoinsView.isAvailable_eq, gone] at available
      cases available
  | true =>
      unfold CTransaction.isCoinBase at coinbase
      split at coinbase
      next txin vin =>
        rw [CTransaction.prevouts, vin, List.map_singleton, List.mem_singleton] at input
        rw [input, coinbase] at exists_coin
        cases exists_coin
      next => cases coinbase

end Ledger

end CryptoYen
