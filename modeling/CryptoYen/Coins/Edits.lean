import CryptoYen.Coins.Restore
import CryptoYen.Library.UndoLog

set_option autoImplicit false

namespace CryptoYen

structure BlockCoins where
  view : CCoinsView
  written : List Uint256

inductive CoinEdit
  | spend (out : COutPoint) (undo : CTxInUndo)
  | add (tx : CTransaction) (nHeight : Nat)

namespace CCoinsView

def Sized (view : CCoinsView) : Prop := ∀ txid, (view.record txid).Sized

def RestorableSpend (view : CCoinsView) (written : List Uint256) (out : COutPoint) : Prop :=
  ∀ next undo, view.spendCoin out = some (next, undo) →
    CCoins.Restorable (out.hash ∈ written) (view.record out.hash) (next.record out.hash)

def RestorableInputs (written : List Uint256) : List CTxIn → CCoinsView → Prop
  | [], _ => True
  | txin :: rest, view =>
      view.RestorableSpend written txin.prevout ∧
        ∀ next undo, view.spendCoin txin.prevout = some (next, undo) →
          RestorableInputs written rest next

variable [TxHasher]

/-- No input of the block takes the last open output of a coinstake, of a transaction at height zero
or of one with a negative version that is not of the block itself, and no transaction is written over
open outputs. -/
def Reversible (nHeight : Nat) : List Uint256 → List CTransaction → CCoinsView → Prop
  | _, [], _ => True
  | written, tx :: rest, view =>
      (tx.isCoinBase = false → RestorableInputs written tx.vin view) ∧ view.WritesFresh tx ∧
        ∀ next undo, view.updateCoins tx nHeight = some (next, undo) →
          Reversible nHeight (tx.getHash :: written) rest next

end CCoinsView

namespace CoinEdit

variable [TxHasher]

def step (coins : BlockCoins) : CoinEdit → Option BlockCoins
  | .spend out undo =>
      (coins.view.spendCoin out).bind fun spent =>
        if spent.2 = undo then some { coins with view := spent.1 } else none
  | .add tx nHeight =>
      if CCoins.Writable tx nHeight then
        some ⟨coins.view.addOutputs tx nHeight, tx.getHash :: coins.written⟩
      else none

def undo : CoinEdit → CCoinsView → CCoinsView × Bool
  | .spend out undo, view => view.restoreInput out undo.back
  | .add tx nHeight, view => view.removeOutputs tx nHeight

def Good (coins : BlockCoins) : CoinEdit → Prop
  | .spend out _ => coins.view.RestorableSpend coins.written out
  | .add tx _ => (coins.view.record tx.getHash).isPruned = true

def Agree (coins : BlockCoins) (restored : CCoinsView) : Prop :=
  ∀ txid, CCoins.Restored (txid ∈ coins.written) (coins.view.record txid) (restored.record txid)

def Differ (coins : BlockCoins) (restored : CCoinsView) : Prop :=
  ∃ txid, CCoins.Apart (txid ∈ coins.written) (coins.view.record txid) (restored.record txid)

theorem step_spend (coins next : BlockCoins) (out : COutPoint) (undo : CTxInUndo)
    (stepped : step coins (.spend out undo) = some next) :
    coins.view.spendCoin out = some (next.view, undo) ∧ next.written = coins.written := by
  obtain ⟨⟨spent, txinundo⟩, taken, same⟩ := Option.bind_eq_some_iff.mp stepped
  split at same
  next eq =>
    cases same
    cases eq
    exact ⟨taken, rfl⟩
  next => cases same

theorem step_add (coins next : BlockCoins) (tx : CTransaction) (nHeight : Nat)
    (stepped : step coins (.add tx nHeight) = some next) :
    CCoins.Writable tx nHeight ∧
      next = ⟨coins.view.addOutputs tx nHeight, tx.getHash :: coins.written⟩ := by
  simp only [step] at stepped
  split at stepped
  next writable =>
    cases stepped
    exact ⟨writable, rfl⟩
  next => cases stepped

theorem removeOutputs_record (view : CCoinsView) (tx : CTransaction) (nHeight : Nat)
    (txid : Uint256) :
    (view.removeOutputs tx nHeight).1.record txid =
      if txid = tx.getHash then CCoins.empty else view.record txid := by
  rw [CCoinsView.removeOutputs, CCoinsView.record_modifyCoins]
  have clean : CCoins.empty.cleanup = CCoins.empty := CCoins.empty_clean
  rw [CCoins.clear, clean]

omit [TxHasher] in
theorem restoreInput_record (view : CCoinsView) (out : COutPoint) (undo : CTxInUndo)
    (txid : Uint256) :
    (view.restoreInput out undo).1.record txid =
      if txid = out.hash then
        ((view.record out.hash).restoreInput out.n undo).1.cleanup
      else view.record txid := by
  rw [CCoinsView.restoreInput, CCoinsView.record_modifyCoins]

theorem sized_step (coins : BlockCoins) (edit : CoinEdit) (next : BlockCoins)
    (sized : coins.view.Sized) (stepped : step coins edit = some next) : next.view.Sized := by
  intro txid
  cases edit with
  | spend out undo =>
      obtain ⟨spent, _⟩ := step_spend coins next out undo stepped
      obtain ⟨taken, others⟩ := coins.view.spendCoin_record next.view out undo spent
      by_cases same : txid = out.hash
      · subst same
        exact (CCoins.spend_sized _ out _ undo (sized out.hash) taken).1
      · rw [others txid same]
        exact sized txid
  | add tx nHeight =>
      obtain ⟨writable, rfl⟩ := step_add coins next tx nHeight stepped
      rw [coins.view.addOutputs_record]
      split
      next => exact CCoins.fromTx_sized tx nHeight writable
      next => exact sized txid

theorem restores_step (coins : BlockCoins) (edit : CoinEdit) (next : BlockCoins)
    (restored : CCoinsView) (sized : coins.view.Sized) (stepped : step coins edit = some next)
    (agree : Agree next restored) (good : Good coins edit) :
    Agree coins (undo edit restored).1 ∧ (undo edit restored).2 = true := by
  cases edit with
  | spend out txinundo =>
      obtain ⟨spent, written⟩ := step_spend coins next out txinundo stepped
      obtain ⟨taken, others⟩ := coins.view.spendCoin_record next.view out txinundo spent
      rw [Agree, written] at agree
      obtain ⟨record, fits⟩ := CCoins.restoreInput_restores _ _ _ (restored.record out.hash) out
        txinundo (coins.view.record_clean out.hash) (sized out.hash).blank taken (agree out.hash)
        (good next.view txinundo spent)
      constructor
      · intro txid
        rw [undo, restoreInput_record]
        split
        next same =>
          rw [same]
          exact record
        next other =>
          rw [← others txid other]
          exact agree txid
      · exact fits
  | add tx nHeight =>
      obtain ⟨_, rfl⟩ := step_add coins next tx nHeight stepped
      have own := agree tx.getHash
      dsimp only at own
      rw [coins.view.addOutputs_record, if_pos rfl] at own
      constructor
      · intro txid
        rw [undo, removeOutputs_record]
        split
        next same =>
          rw [same]
          exact CCoins.restored_of_equal _ _ _ ((CCoins.equal_iff _ _).mpr (.inl ⟨good, rfl⟩))
        next other =>
          have later := agree txid
          dsimp only at later
          rw [coins.view.addOutputs_record, if_neg other, List.mem_cons] at later
          simpa only [other, false_or] using later
      · exact CCoins.matchesBlock_of_restored _ _ tx nHeight own

theorem breaks_step (coins : BlockCoins) (edit : CoinEdit) (next : BlockCoins)
    (restored : CCoinsView) (stepped : step coins edit = some next) (agree : Agree next restored)
    (bad : ¬ Good coins edit) :
    Differ coins (undo edit restored).1 ∨ (undo edit restored).2 = false := by
  cases edit with
  | spend out txinundo =>
      obtain ⟨spent, written⟩ := step_spend coins next out txinundo stepped
      obtain ⟨taken, _⟩ := coins.view.spendCoin_record next.view out txinundo spent
      rw [Agree, written] at agree
      have broken : ¬ CCoins.Restorable (out.hash ∈ coins.written) (coins.view.record out.hash)
          (next.view.record out.hash) := by
        intro restorable
        apply bad
        intro other otherUndo taken
        rw [spent] at taken
        cases taken
        exact restorable
      rcases CCoins.restoreInput_breaks _ _ _ (restored.record out.hash) out txinundo taken
        (agree out.hash) broken with apart | unfit
      · left
        refine ⟨out.hash, ?_⟩
        rw [undo, restoreInput_record, if_pos rfl]
        exact apart
      · exact .inr unfit
  | add tx nHeight =>
      left
      refine ⟨tx.getHash, by simpa [Good] using bad, .inl ?_⟩
      rw [undo, removeOutputs_record, if_pos rfl]
      rfl

theorem persists_step (coins : BlockCoins) (edit : CoinEdit) (next : BlockCoins)
    (restored : CCoinsView) (stepped : step coins edit = some next)
    (differ : Differ next restored) :
    Differ coins (undo edit restored).1 ∨ (undo edit restored).2 = false := by
  obtain ⟨txid, apart⟩ := differ
  cases edit with
  | spend out txinundo =>
      obtain ⟨spent, written⟩ := step_spend coins next out txinundo stepped
      obtain ⟨taken, others⟩ := coins.view.spendCoin_record next.view out txinundo spent
      rw [written] at apart
      by_cases same : txid = out.hash
      · subst same
        rcases CCoins.restoreInput_persists _ _ _ (restored.record out.hash) out txinundo taken
          apart with still | unfit
        · left
          refine ⟨out.hash, ?_⟩
          rw [undo, restoreInput_record, if_pos rfl]
          exact still
        · exact .inr unfit
      · left
        refine ⟨txid, ?_⟩
        rw [undo, restoreInput_record, if_neg same, ← others txid same]
        exact apart
  | add tx nHeight =>
      obtain ⟨_, rfl⟩ := step_add coins next tx nHeight stepped
      dsimp only at apart
      rw [coins.view.addOutputs_record] at apart
      by_cases same : txid = tx.getHash
      · right
        rw [if_pos same, same] at apart
        exact CCoins.matchesBlock_apart _ List.mem_cons_self _ tx nHeight apart
      · left
        refine ⟨txid, ?_⟩
        rw [undo, removeOutputs_record, if_neg same]
        rw [if_neg same, List.mem_cons] at apart
        simpa only [same, false_or] using apart

theorem accountable :
    UndoLog.Accountable step undo (fun coins => coins.view.Sized) Good Agree Differ where
  keeps := sized_step
  restores := restores_step
  breaks := fun coins edit next restored _ => breaks_step coins edit next restored
  persists := fun coins edit next restored _ => persists_step coins edit next restored
  apart := by
    intro coins restored agree differ
    obtain ⟨txid, apart⟩ := differ
    exact CCoins.not_apart_of_restored _ _ _ (agree txid) apart

omit [TxHasher] in
theorem agree_start (view restored : CCoinsView) :
    Agree ⟨view, []⟩ restored ↔
      ∀ txid, CCoins.equal (view.record txid) (restored.record txid) = true :=
  forall_congr' fun _ =>
    ⟨fun restored => restored.equal List.not_mem_nil, CCoins.restored_of_equal _ _ _⟩

def spendEdits (vin : List CTxIn) (txundo : CTxUndo) : List CoinEdit :=
  (vin.zip txundo).map fun input => .spend input.1.prevout input.2

def txEdits (nHeight : Nat) (tx : CTransaction) (txundo : CTxUndo) : List CoinEdit :=
  (if tx.isCoinBase then [] else spendEdits tx.vin txundo) ++ [.add tx nHeight]

theorem spendEdits_run (vin : List CTxIn) (coins : BlockCoins) (next : CCoinsView)
    (txundo : CTxUndo) (spent : CCoinsView.spendInputs vin coins.view = some (next, txundo)) :
    txundo.length = vin.length ∧
      Machine.run step coins (spendEdits vin txundo) = some { coins with view := next } ∧
      (Machine.Along Good step coins (spendEdits vin txundo) ↔
        CCoinsView.RestorableInputs coins.written vin coins.view) := by
  induction vin generalizing coins txundo with
  | nil =>
      cases spent
      exact ⟨rfl, rfl, Iff.rfl⟩
  | cons txin rest ih =>
      obtain ⟨mid, undo, undos, taken, others, rfl⟩ :=
        (CCoinsView.spendInputs_cons _ _ _ _ _).mp spent
      obtain ⟨length, ran, along⟩ := ih { coins with view := mid } undos others
      have stepped : step coins (.spend txin.prevout undo) = some { coins with view := mid } := by
        simp [step, taken]
      refine ⟨by simp [length], ?_, ?_⟩
      · simpa [spendEdits, Machine.run, stepped] using ran
      · simp only [spendEdits, List.zip_cons_cons, List.map_cons, Machine.Along, stepped,
          Option.some.injEq, forall_eq', CCoinsView.RestorableInputs, taken, Prod.mk.injEq,
          and_imp]
        rw [spendEdits] at along
        simp [Good, along]

theorem txEdits_run (nHeight : Nat) (tx : CTransaction) (coins : BlockCoins) (next : CCoinsView)
    (txundo : CTxUndo) (writable : CCoins.Writable tx nHeight)
    (updated : coins.view.updateCoins tx nHeight = some (next, txundo)) :
    Machine.run step coins (txEdits nHeight tx txundo) =
        some ⟨next, tx.getHash :: coins.written⟩ ∧
      (Machine.Along Good step coins (txEdits nHeight tx txundo) ↔
        (tx.isCoinBase = false → CCoinsView.RestorableInputs coins.written tx.vin coins.view) ∧
          coins.view.WritesFresh tx) := by
  obtain ⟨spent, taken, rfl⟩ := coins.view.updateCoins_some tx nHeight next txundo updated
  have added : step { coins with view := spent } (.add tx nHeight) =
      some ⟨spent.addOutputs tx nHeight, tx.getHash :: coins.written⟩ := by
    rw [step, if_pos writable]
  have fresh : coins.view.WritesFresh tx ↔ (spent.record tx.getHash).isPruned = true := by
    simp [CCoinsView.WritesFresh, taken]
  cases coinbase : tx.isCoinBase with
  | true =>
      have here : spent = coins.view := by
        simp only [CCoinsView.spendTransaction, coinbase, ↓reduceIte, Option.some.injEq,
          Prod.mk.injEq] at taken
        exact taken.1.symm
      subst here
      constructor
      · simp [txEdits, coinbase, Machine.run, added]
      · simp [txEdits, coinbase, Machine.Along, Good, fresh]
  | false =>
      have inputs : CCoinsView.spendInputs tx.vin coins.view = some (spent, txundo) := by
        simpa [CCoinsView.spendTransaction, coinbase] using taken
      obtain ⟨_, ran, along⟩ := spendEdits_run tx.vin coins spent txundo inputs
      constructor
      · simp [txEdits, coinbase, Machine.run_append, ran, Machine.run, added]
      · simp [txEdits, coinbase, Machine.along_append, ran, along, Machine.Along, Good, fresh]

omit [TxHasher] in
theorem restoreInputs_eq [TxHasher] (vin : List CTxIn) (txundo : CTxUndo) (view : CCoinsView) :
    CCoinsView.restoreInputs (vin.zip (txundo.map CTxInUndo.back)) view =
      UndoLog.undoAll undo (spendEdits vin txundo) view := by
  rw [spendEdits, List.zip_map_right]
  induction vin.zip txundo with
  | nil => rfl
  | cons input rest ih =>
      simp only [CCoinsView.restoreInputs, List.map_cons, UndoLog.undoAll, ih]
      rfl

end CoinEdit

end CryptoYen
