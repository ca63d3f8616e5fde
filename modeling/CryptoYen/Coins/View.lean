import CryptoYen.Coins.Record

set_option autoImplicit false

namespace CryptoYen

/-- The open outputs as a plain map: what every stack of caches over the database stands for. -/
structure CCoinsView where
  coins : Uint256 → Option CleanCoins
  hashBlock : Uint256

namespace CCoinsView

variable (view : CCoinsView)

def empty (hashBlock : Uint256) : CCoinsView := ⟨fun _ => none, hashBlock⟩

def record (txid : Uint256) : CCoins := ((view.coins txid).getD CleanCoins.empty).val

-- An edit through a CCoinsModifier ends in Cleanup.
def modifyCoins (txid : Uint256) (edit : CCoins → CCoins) : CCoinsView :=
  { view with
    coins := Function.update view.coins txid (some (CleanCoins.of (edit (view.record txid)))) }

def setBestBlock (hashBlock : Uint256) : CCoinsView := { view with hashBlock := hashBlock }

def coinAt (out : COutPoint) : Option CTxOut := (view.record out.hash).coin out.n

-- HaveCoins: an entry whose outputs are all spent does not count.
def haveCoins (txid : Uint256) : Bool := !(view.record txid).vout.isEmpty

def isAvailable (out : COutPoint) : Bool := (view.record out.hash).isAvailable out.n

def haveInputs (tx : CTransaction) : Bool :=
  tx.isCoinBase || tx.vin.all fun txin => view.isAvailable txin.prevout

-- GetOutputFor asserts that the output is there.
def getOutputFor (txin : CTxIn) : Option CTxOut := view.coinAt txin.prevout

def addValueIn (nResult : Int) (txin : CTxIn) : Option Int :=
  (view.getOutputFor txin).map fun txout => nResult + txout.nValue

def getValueIn (tx : CTransaction) : Option Int :=
  if tx.isCoinBase then some 0 else tx.vin.foldlM view.addValueIn 0

def spendCoin (out : COutPoint) : Option (CCoinsView × CTxInUndo) :=
  ((view.record out.hash).spend out).map fun result =>
    (view.modifyCoins out.hash fun _ => result.1, result.2)

def spendInputs : List CTxIn → CCoinsView → Option (CCoinsView × CTxUndo)
  | [], view => some (view, [])
  | txin :: rest, view => do
      let (view, undo) ← view.spendCoin txin.prevout
      let (view, undos) ← spendInputs rest view
      some (view, undo :: undos)

def addOutputs [TxHasher] (tx : CTransaction) (nHeight : Nat) : CCoinsView :=
  view.modifyCoins tx.getHash fun _ => CCoins.fromTx tx nHeight

def spendTransaction (tx : CTransaction) : Option (CCoinsView × CTxUndo) :=
  if tx.isCoinBase then some (view, []) else spendInputs tx.vin view

-- UpdateCoins; it fails where its assert(ret) fires.
def updateCoins [TxHasher] (tx : CTransaction) (nHeight : Nat) : Option (CCoinsView × CTxUndo) :=
  (view.spendTransaction tx).map fun spent => (spent.1.addOutputs tx nHeight, spent.2)

theorem record_clean (txid : Uint256) : (view.record txid).Clean :=
  ((view.coins txid).getD CleanCoins.empty).property

@[simp] theorem record_modifyCoins (txid other : Uint256) (edit : CCoins → CCoins) :
    (view.modifyCoins txid edit).record other =
      if other = txid then (edit (view.record txid)).cleanup else view.record other := by
  by_cases same : other = txid
  · subst same
    rw [if_pos rfl]
    simp only [modifyCoins, record, Function.update_self]
    rfl
  · simp [modifyCoins, record, same]

@[simp] theorem hashBlock_modifyCoins (txid : Uint256) (edit : CCoins → CCoins) :
    (view.modifyCoins txid edit).hashBlock = view.hashBlock := rfl

@[simp] theorem record_setBestBlock (hashBlock txid : Uint256) :
    (view.setBestBlock hashBlock).record txid = view.record txid := rfl

theorem isAvailable_eq (out : COutPoint) : view.isAvailable out = (view.coinAt out).isSome :=
  CCoins.isAvailable_iff_coin _ _

theorem spendCoin_isSome (out : COutPoint) :
    (view.spendCoin out).isSome = view.isAvailable out := by
  simp [spendCoin, isAvailable, CCoins.spend_isSome]

theorem spendCoin_some (out : COutPoint) (next : CCoinsView) (undo : CTxInUndo)
    (spent : view.spendCoin out = some (next, undo)) :
    ∃ coins, (view.record out.hash).spend out = some (coins, undo) ∧
      next = view.modifyCoins out.hash fun _ => coins := by
  obtain ⟨⟨coins, txinundo⟩, result, same⟩ := Option.map_eq_some_iff.mp spent
  cases same
  exact ⟨coins, result, rfl⟩

theorem spendCoin_record (next : CCoinsView) (out : COutPoint) (undo : CTxInUndo)
    (spent : view.spendCoin out = some (next, undo)) :
    (view.record out.hash).spend out = some (next.record out.hash, undo) ∧
      ∀ txid, txid ≠ out.hash → next.record txid = view.record txid := by
  obtain ⟨coins, taken, rfl⟩ := view.spendCoin_some out next undo spent
  constructor
  · rw [record_modifyCoins, if_pos rfl, taken]
    have clean : coins.cleanup = coins := CCoins.spend_clean _ _ _ _ taken
    rw [clean]
  · intro txid other
    rw [record_modifyCoins, if_neg other]

theorem spendCoin_coinAt (out : COutPoint) (next : CCoinsView) (undo : CTxInUndo)
    (spent : view.spendCoin out = some (next, undo)) (other : COutPoint) :
    next.coinAt other = if other = out then none else view.coinAt other := by
  obtain ⟨coins, result, rfl⟩ := view.spendCoin_some out next undo spent
  simp only [coinAt, record_modifyCoins]
  by_cases same : other.hash = out.hash
  · rw [if_pos same, CCoins.cleanup_coin, CCoins.spend_coin _ _ _ _ result, same]
    by_cases position : other.n = out.n
    · have equal : other = out := by
        cases other
        cases out
        simp_all
      simp [equal]
    · have different : other ≠ out := by
        rintro rfl
        exact position rfl
      simp [position, different]
  · have different : other ≠ out := by
      rintro rfl
      exact same rfl
    simp [same, different]

theorem spendInputs_cons (txin : CTxIn) (rest : List CTxIn) (view last : CCoinsView)
    (txundo : CTxUndo) :
    spendInputs (txin :: rest) view = some (last, txundo) ↔
      ∃ next undo undos, view.spendCoin txin.prevout = some (next, undo) ∧
        spendInputs rest next = some (last, undos) ∧ txundo = undo :: undos := by
  constructor
  · intro spent
    simp only [spendInputs, Option.bind_eq_bind, Option.bind_eq_some_iff] at spent
    obtain ⟨⟨next, undo⟩, first, ⟨_, undos⟩, others, same⟩ := spent
    cases same
    exact ⟨next, undo, undos, first, others, rfl⟩
  · rintro ⟨next, undo, undos, first, others, rfl⟩
    simp only [spendInputs, first, others, Option.bind_eq_bind, Option.bind_some]

theorem spendInputs_isSome (vin : List CTxIn) (view : CCoinsView) :
    (spendInputs vin view).isSome = true ↔
      (vin.map CTxIn.prevout).Nodup ∧ ∀ txin ∈ vin, view.isAvailable txin.prevout = true := by
  induction vin generalizing view with
  | nil => simp [spendInputs]
  | cons txin rest ih =>
      cases spent : view.spendCoin txin.prevout with
      | none =>
          have missing : view.isAvailable txin.prevout = false := by
            rw [← spendCoin_isSome, spent]
            rfl
          simp [spendInputs, spent, missing]
      | some result =>
          obtain ⟨next, undo⟩ := result
          have present : view.isAvailable txin.prevout = true := by
            rw [← spendCoin_isSome, spent]
            rfl
          have left (out : COutPoint) :
              next.isAvailable out = true ↔ out ≠ txin.prevout ∧ view.isAvailable out = true := by
            rw [isAvailable_eq, isAvailable_eq, view.spendCoin_coinAt _ _ _ spent]
            by_cases same : out = txin.prevout <;> simp [same]
          have unfolded : (spendInputs (txin :: rest) view).isSome =
              (spendInputs rest next).isSome := by
            simp only [spendInputs, spent, Option.bind_eq_bind, Option.bind_some]
            cases spendInputs rest next <;> rfl
          rw [unfolded, ih]
          simp only [left, List.map_cons, List.nodup_cons, List.mem_map, not_exists, not_and,
            List.forall_mem_cons, present, true_and]
          constructor
          · rintro ⟨distinct, others⟩
            exact ⟨⟨fun other mem => (others other mem).1, distinct⟩,
              fun other mem => (others other mem).2⟩
          · rintro ⟨⟨apart, distinct⟩, others⟩
            exact ⟨distinct, fun other mem => ⟨apart other mem, others other mem⟩⟩

/-- A transaction is written where no output is open. -/
def WritesFresh [TxHasher] (tx : CTransaction) : Prop :=
  ∀ spent undo, view.spendTransaction tx = some (spent, undo) →
    (spent.record tx.getHash).isPruned = true

theorem updateCoins_isSome [TxHasher] (tx : CTransaction) (nHeight : Nat)
    (spending : tx.isCoinBase = false) :
    (view.updateCoins tx nHeight).isSome = (spendInputs tx.vin view).isSome := by
  simp [updateCoins, spendTransaction, spending]

theorem updateCoins_coinBase [TxHasher] (tx : CTransaction) (nHeight : Nat)
    (coinbase : tx.isCoinBase = true) :
    view.updateCoins tx nHeight = some (view.addOutputs tx nHeight, []) := by
  simp [updateCoins, spendTransaction, coinbase]

theorem updateCoins_some [TxHasher] (tx : CTransaction) (nHeight : Nat) (next : CCoinsView)
    (txundo : CTxUndo) (updated : view.updateCoins tx nHeight = some (next, txundo)) :
    ∃ spent, view.spendTransaction tx = some (spent, txundo) ∧
      next = spent.addOutputs tx nHeight := by
  obtain ⟨⟨spent, undo⟩, found, same⟩ := Option.map_eq_some_iff.mp updated
  cases same
  exact ⟨spent, found, rfl⟩

theorem addOutputs_record [TxHasher] (tx : CTransaction) (nHeight : Nat)
    (txid : Uint256) :
    (view.addOutputs tx nHeight).record txid =
      if txid = tx.getHash then CCoins.fromTx tx nHeight else view.record txid := by
  rw [addOutputs, record_modifyCoins]
  have clean : (CCoins.fromTx tx nHeight).cleanup = CCoins.fromTx tx nHeight :=
    CCoins.fromTx_clean tx nHeight
  rw [clean]

def valueAt (out : COutPoint) : Int := ((view.coinAt out).map CTxOut.nValue).getD 0

theorem foldlM_addValueIn (vin : List CTxIn) (start : Int)
    (available : ∀ txin ∈ vin, view.isAvailable txin.prevout = true) :
    vin.foldlM view.addValueIn start =
      some (start + (vin.map fun txin => view.valueAt txin.prevout).sum) := by
  induction vin generalizing start with
  | nil => simp
  | cons txin rest ih =>
      obtain ⟨here, others⟩ := List.forall_mem_cons.mp available
      rw [isAvailable_eq] at here
      obtain ⟨txout, found⟩ := Option.isSome_iff_exists.mp here
      have value : view.valueAt txin.prevout = txout.nValue := by
        simp [valueAt, found]
      simp only [List.foldlM_cons, addValueIn, getOutputFor, found, Option.map_some,
        Option.bind_eq_bind, Option.bind_some]
      rw [ih _ others, List.map_cons, List.sum_cons, value, Int.add_assoc]

theorem getValueIn_eq (tx : CTransaction) (spending : tx.isCoinBase = false)
    (have_inputs : view.haveInputs tx = true) :
    view.getValueIn tx = some (tx.prevouts.map view.valueAt).sum := by
  have available : ∀ txin ∈ tx.vin, view.isAvailable txin.prevout = true := by
    simpa [haveInputs, spending] using have_inputs
  simp [getValueIn, spending, foldlM_addValueIn view tx.vin 0 available, CTransaction.prevouts,
    Function.comp_def]

end CCoinsView

end CryptoYen
