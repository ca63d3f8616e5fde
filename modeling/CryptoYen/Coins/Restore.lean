import CryptoYen.Coins.View
import CryptoYen.Primitives.Format

set_option autoImplicit false

namespace CryptoYen

/-- What the undo file gives back: a version is written only with a height, and a negative one in
seven bits. -/
def CTxInUndo.back (undo : CTxInUndo) : CTxInUndo :=
  { undo with
    nVersion :=
      if undo.nHeight = 0 then 0
      else if undo.nVersion < 0 then undo.nVersion % 128
      else undo.nVersion }

/-- What the format of the undo data has room for. -/
structure CTxInUndo.Sized (undo : CTxInUndo) : Prop where
  height : undo.nHeight < 2 ^ 30
  version : Format.Int32 undo.nVersion
  script : undo.txout.scriptPubKey.length ≤ MAX_SIZE

namespace CCoins

def Blank (coins : CCoins) : Prop := ∀ txout ∈ coins.vout, txout.isNull = true → txout = CTxOut.null

def resize (vout : List CTxOut) (size : Nat) : List CTxOut :=
  vout ++ List.replicate (size - vout.length) CTxOut.null

/-- What DisconnectBlock does to the record of one input. The undo data names a height when the
input took the last output of its transaction. -/
def restoreInput (coins : CCoins) (nPos : Nat) (undo : CTxInUndo) : CCoins × Bool :=
  let fits := if undo.nHeight ≠ 0 then coins.isPruned else !coins.isPruned
  let coins :=
    if undo.nHeight ≠ 0 then
      { empty with
        fCoinBase := undo.fCoinBase
        nHeight := undo.nHeight
        nVersion := undo.nVersion }
    else coins
  ({ coins with vout := (resize coins.vout (nPos + 1)).set nPos undo.txout },
    fits && !coins.isAvailable nPos)

def matchesBlock (coins : CCoins) (tx : CTransaction) (nHeight : Nat) : Bool :=
  let outs := coins.clearUnspendable
  let outsBlock := fromTx tx nHeight
  equal
    { outs with nVersion := if outsBlock.nVersion < 0 then outsBlock.nVersion else outs.nVersion }
    outsBlock

theorem coin_isNull (coins : CCoins) (nPos : Nat) (txout : CTxOut)
    (present : coins.coin nPos = some txout) : txout.isNull = false := by
  simpa using (Option.filter_eq_some_iff.mp present).2

theorem coin_resize_set (coins : CCoins) (nPos other : Nat) (txout : CTxOut)
    (alive : txout.isNull = false) :
    coin { coins with vout := (resize coins.vout (nPos + 1)).set nPos txout } other =
      if other = nPos then some txout else coins.coin other := by
  have inside : nPos < (resize coins.vout (nPos + 1)).length := by
    simp [resize]
    omega
  by_cases same : nPos = other
  · subst same
    simp [coin, List.getElem?_set_self inside, alive]
  · have padding : (resize coins.vout (nPos + 1))[other]?.filter (fun txout => !txout.isNull) =
        coins.vout[other]?.filter fun txout => !txout.isNull := by
      by_cases old : other < coins.vout.length
      · rw [resize, List.getElem?_append_left old]
      · rw [resize, List.getElem?_append_right (by omega), List.getElem?_replicate]
        split <;> simp [List.getElem?_eq_none (Nat.le_of_not_lt old)]
    simp only [coin, List.getElem?_set_ne same, padding]
    rw [if_neg (Ne.symm same)]

theorem length_le_of_coin (first second : CCoins) (clean : second.Clean)
    (coins : ∀ nPos, first.coin nPos = second.coin nPos) :
    second.vout.length ≤ first.vout.length := by
  by_contra longer
  have fixed : second.vout.rdropWhile CTxOut.isNull = second.vout := congrArg vout clean
  have nonempty : second.vout ≠ [] := by
    intro none
    simp [none] at longer
  have last := List.rdropWhile_eq_self_iff.mp fixed nonempty
  have present : second.coin (second.vout.length - 1) =
      some (second.vout.getLast nonempty) := by
    simp only [coin, ← List.getLast?_eq_getElem?, List.getLast?_eq_getLast_of_ne_nil nonempty]
    simpa using last
  have absent : first.coin (second.vout.length - 1) = none := by
    simp only [coin]
    rw [List.getElem?_eq_none (by omega)]
    rfl
  rw [coins, present] at absent
  cases absent

theorem vout_ext (first second : CCoins) (firstClean : first.Clean) (secondClean : second.Clean)
    (firstBlank : first.Blank) (secondBlank : second.Blank)
    (coins : ∀ nPos, first.coin nPos = second.coin nPos) : first.vout = second.vout := by
  have length : first.vout.length = second.vout.length := by
    apply Nat.le_antisymm
    · exact length_le_of_coin second first firstClean fun nPos => (coins nPos).symm
    · exact length_le_of_coin first second secondClean coins
  apply List.ext_getElem length
  intro nPos inFirst inSecond
  have same := coins nPos
  simp only [coin, List.getElem?_eq_getElem inFirst, List.getElem?_eq_getElem inSecond] at same
  cases firstNull : (first.vout[nPos]).isNull with
  | true =>
      have secondNull : (second.vout[nPos]).isNull = true := by
        by_contra alive
        simp [Option.filter, firstNull, alive] at same
      rw [firstBlank _ (List.getElem_mem inFirst) firstNull,
        secondBlank _ (List.getElem_mem inSecond) secondNull]
  | false =>
      have secondAlive : (second.vout[nPos]).isNull = false := by
        by_contra gone
        simp [Option.filter, firstNull, gone] at same
      simpa [Option.filter, firstNull, secondAlive] using same

theorem mem_cleanup (coins : CCoins) (txout : CTxOut) (member : txout ∈ coins.cleanup.vout) :
    txout ∈ coins.vout :=
  (List.rdropWhile_prefix CTxOut.isNull coins.vout).mem member

theorem cleanup_blank (coins : CCoins) (blank : coins.Blank) : coins.cleanup.Blank := by
  intro txout member null
  exact blank txout (coins.mem_cleanup txout member) null

theorem spend_blank (coins : CCoins) (out : COutPoint) (spent : CCoins) (undo : CTxInUndo)
    (blank : coins.Blank) (succeeds : coins.spend out = some (spent, undo)) : spent.Blank := by
  obtain ⟨_, rfl, _⟩ := spend_some coins out spent undo succeeds
  apply cleanup_blank
  intro txout member null
  rcases List.mem_or_eq_of_mem_set member with old | new
  · exact blank txout old null
  · exact new

theorem fromTx_blank (tx : CTransaction) (nHeight : Nat)
    (nonNegative : ∀ txout ∈ tx.vout, 0 ≤ txout.nValue) : (fromTx tx nHeight).Blank := by
  apply cleanup_blank
  intro txout member null
  obtain ⟨original, present, rfl⟩ := List.mem_map.mp member
  split at null
  next unspendable => simp [unspendable]
  next =>
    have value := nonNegative original present
    have negative : original.nValue = -1 := by simpa [CTxOut.isNull] using null
    omega

theorem empty_blank : empty.Blank := by
  intro txout member
  cases member

theorem resize_set_blank (coins : CCoins) (nPos : Nat) (txout : CTxOut) (blank : coins.Blank)
    (alive : txout.isNull = false) :
    Blank { coins with vout := (resize coins.vout (nPos + 1)).set nPos txout } := by
  intro other member null
  rcases List.mem_or_eq_of_mem_set member with old | new
  · rcases List.mem_append.mp old with before | padding
    · exact blank other before null
    · exact List.eq_of_mem_replicate padding
  · rw [new, alive] at null
    cases null

/-- The undo file brings the record of a spend back: taking the last output must leave nothing behind
that the file lacks, the coinstake flag, a height of zero or a negative version. The version of a
record of the block itself is not looked at. -/
def Restorable (ofBlock : Prop) (coins spent : CCoins) : Prop :=
  spent.vout = [] →
    coins.fCoinStake = false ∧ coins.nHeight ≠ 0 ∧ (0 ≤ coins.nVersion ∨ ofBlock)

/-- DisconnectBlock takes the record for the expected one. It corrects the version of a record of the
block itself when that is negative. -/
def Restored (ofBlock : Prop) (expected actual : CCoins) : Prop :=
  ∃ nVersion, equal expected { actual with nVersion := nVersion } = true ∧
    (nVersion = actual.nVersion ∨ ofBlock ∧ expected.nVersion < 0)

def Apart (ofBlock : Prop) (expected actual : CCoins) : Prop :=
  expected.isPruned = false ∧
    (actual.isPruned = true ∨ actual.fCoinStake ≠ expected.fCoinStake ∨
      actual.nVersion ≠ expected.nVersion ∧ ¬ ofBlock)

theorem equal_open (expected actual : CCoins) (same : equal expected actual = true)
    (isOpen : expected.isPruned = false) : actual = expected := by
  rcases (equal_iff expected actual).mp same with pruned | eq
  · rw [isOpen] at pruned
    cases pruned.1
  · exact eq.symm

theorem equal_pruned (expected actual : CCoins) (same : equal expected actual = true)
    (pruned : expected.isPruned = true) : actual.isPruned = true := by
  rcases (equal_iff expected actual).mp same with both | eq
  · exact both.2
  · rw [← eq]
    exact pruned

theorem restored_of_equal (ofBlock : Prop) (expected actual : CCoins)
    (same : equal expected actual = true) : Restored ofBlock expected actual :=
  ⟨actual.nVersion, same, .inl rfl⟩

theorem Restored.equal {ofBlock : Prop} {expected actual : CCoins}
    (restored : Restored ofBlock expected actual) (other : ¬ ofBlock) :
    equal expected actual = true := by
  obtain ⟨nVersion, same, rfl | excused⟩ := restored
  · exact same
  · exact absurd excused.1 other

theorem Restored.isPruned {ofBlock : Prop} {expected actual : CCoins}
    (restored : Restored ofBlock expected actual) (pruned : expected.isPruned = true) :
    actual.isPruned = true := by
  obtain ⟨nVersion, same, _⟩ := restored
  exact equal_pruned expected { actual with nVersion := nVersion } same pruned

theorem not_apart_of_restored (ofBlock : Prop) (expected actual : CCoins)
    (restored : Restored ofBlock expected actual) : ¬ Apart ofBlock expected actual := by
  intro apart
  obtain ⟨isOpen, different⟩ := apart
  obtain ⟨nVersion, same, version⟩ := restored
  have eq := equal_open expected { actual with nVersion := nVersion } same isOpen
  subst eq
  rcases different with pruned | stake | other
  · have left : actual.isPruned = false := isOpen
    rw [pruned] at left
    cases left
  · exact stake rfl
  · rcases version with kept | excused
    · exact other.1 kept.symm
    · exact other.2 excused.1

theorem spend_undo_last (coins : CCoins) (out : COutPoint) (spent : CCoins) (undo : CTxInUndo)
    (succeeds : coins.spend out = some (spent, undo)) (last : spent.vout = []) :
    undo = ⟨undo.txout, coins.fCoinBase, coins.fCoinStake, coins.nHeight, coins.nVersion⟩ := by
  obtain ⟨_, _, data⟩ := spend_some coins out spent undo succeeds
  rw [if_pos (by simp [last])] at data
  exact data

theorem spend_undo_remaining (coins : CCoins) (out : COutPoint) (spent : CCoins) (undo : CTxInUndo)
    (succeeds : coins.spend out = some (spent, undo)) (more : spent.vout ≠ []) :
    undo.nHeight = 0 := by
  obtain ⟨_, _, data⟩ := spend_some coins out spent undo succeeds
  rw [if_neg (by simp [more])] at data
  rw [data]

theorem spend_fields (coins : CCoins) (out : COutPoint) (spent : CCoins) (undo : CTxInUndo)
    (succeeds : coins.spend out = some (spent, undo)) :
    spent.fCoinBase = coins.fCoinBase ∧ spent.fCoinStake = coins.fCoinStake ∧
      spent.nHeight = coins.nHeight ∧ spent.nVersion = coins.nVersion := by
  obtain ⟨_, rfl, _⟩ := spend_some coins out spent undo succeeds
  exact ⟨rfl, rfl, rfl, rfl⟩

theorem ext_of_coin (first second : CCoins) (firstClean : first.Clean) (secondClean : second.Clean)
    (firstBlank : first.Blank) (secondBlank : second.Blank)
    (fields : first.fCoinBase = second.fCoinBase ∧ first.fCoinStake = second.fCoinStake ∧
      first.nHeight = second.nHeight ∧ first.nVersion = second.nVersion)
    (coins : ∀ nPos, first.coin nPos = second.coin nPos) : first = second := by
  have vout := vout_ext first second firstClean secondClean firstBlank secondBlank coins
  obtain ⟨coinbase, coinstake, height, version⟩ := fields
  cases first
  cases second
  simp_all

theorem spend_coin_back (coins spent : CCoins) (out : COutPoint) (undo : CTxInUndo)
    (succeeds : coins.spend out = some (spent, undo)) (nPos : Nat) :
    (if nPos = out.n then some undo.txout else spent.coin nPos) = coins.coin nPos := by
  obtain ⟨taken, _, _⟩ := spend_some coins out spent undo succeeds
  rw [spend_coin coins out spent undo succeeds]
  by_cases position : nPos = out.n
  · simp [position, taken]
  · simp [position]

theorem restoreInput_last (coins spent base : CCoins) (out : COutPoint) (undo : CTxInUndo)
    (clean : coins.Clean) (blank : coins.Blank) (succeeds : coins.spend out = some (spent, undo))
    (basePruned : base.isPruned = true) (last : spent.vout = [])
    (notStake : coins.fCoinStake = false) (height : coins.nHeight ≠ 0) :
    { (restoreInput base out.n undo.back).1.cleanup with nVersion := coins.nVersion } = coins ∧
      (restoreInput base out.n undo.back).1.nVersion = undo.back.nVersion ∧
        (restoreInput base out.n undo.back).2 = true := by
  obtain ⟨taken, _, _⟩ := spend_some coins out spent undo succeeds
  have alive := coin_isNull coins out.n undo.txout taken
  have others := spend_coin_back coins spent out undo succeeds
  have data := spend_undo_last coins out spent undo succeeds last
  have pruned := (spend_clean coins out spent undo succeeds).isPruned_iff.mpr last
  have coinBase : undo.fCoinBase = coins.fCoinBase := congrArg CTxInUndo.fCoinBase data
  have sameHeight : undo.nHeight = coins.nHeight := congrArg CTxInUndo.nHeight data
  have undoHeight : undo.back.nHeight ≠ 0 := by
    rw [CTxInUndo.back, sameHeight]
    exact height
  have emptied (nPos : Nat) : spent.coin nPos = none := (isPruned_iff_coin spent).mp pruned nPos
  refine ⟨?_, ?_, ?_⟩
  · apply ext_of_coin _ _ ?_ clean ?_ blank
    · rw [restoreInput, if_pos undoHeight]
      exact ⟨coinBase, notStake.symm, sameHeight, rfl⟩
    · intro nPos
      rw [← others nPos, emptied, restoreInput, if_pos undoHeight]
      exact (cleanup_coin _ nPos).trans (coin_resize_set _ _ _ _ alive)
    · rw [Clean, cleanup]
      simp only [cleanup, List.rdropWhile_idempotent]
    · rw [restoreInput, if_pos undoHeight]
      refine cleanup_blank _ (resize_set_blank _ _ _ ?_ alive)
      intro txout member
      cases member
  · rw [restoreInput, if_pos undoHeight]
  · simp only [restoreInput, if_pos undoHeight, basePruned, Bool.true_and]
    rfl

theorem restoreInput_open (coins spent : CCoins) (out : COutPoint) (undo : CTxInUndo)
    (clean : coins.Clean) (blank : coins.Blank) (succeeds : coins.spend out = some (spent, undo))
    (remaining : spent.vout ≠ []) :
    (restoreInput spent out.n undo.back).1.cleanup = coins ∧
      (restoreInput spent out.n undo.back).2 = true := by
  obtain ⟨taken, _, _⟩ := spend_some coins out spent undo succeeds
  have alive := coin_isNull coins out.n undo.txout taken
  have left := spend_coin coins out spent undo succeeds
  have others := spend_coin_back coins spent out undo succeeds
  have spentClean := spend_clean coins out spent undo succeeds
  have fields := spend_fields coins out spent undo succeeds
  have undoHeight : undo.back.nHeight = 0 :=
    spend_undo_remaining coins out spent undo succeeds remaining
  have isOpen : spent.isPruned = false := by
    simpa using fun pruned => remaining (spentClean.isPruned_iff.mp pruned)
  have back : undo.back.txout = undo.txout := rfl
  constructor
  · apply ext_of_coin _ _ (cleanup_clean _) clean _ blank
    · simp only [restoreInput, undoHeight, ne_eq, not_true_eq_false, ↓reduceIte]
      exact fields
    · intro nPos
      simp only [restoreInput, undoHeight, ne_eq, not_true_eq_false, ↓reduceIte, cleanup_coin, back]
      rw [coin_resize_set _ _ _ _ alive, others]
    · apply cleanup_blank
      simp only [restoreInput, undoHeight, ne_eq, not_true_eq_false, ↓reduceIte]
      exact resize_set_blank _ _ _ (spend_blank coins out spent undo blank succeeds) alive
  · simp [restoreInput, undoHeight, isOpen, isAvailable_iff_coin, left]

theorem restoreInput_version (base : CCoins) (nPos : Nat) (undo : CTxInUndo) (nVersion : Int)
    (undoHeight : undo.nHeight = 0) :
    restoreInput { base with nVersion := nVersion } nPos undo =
      ({ (restoreInput base nPos undo).1 with nVersion := nVersion },
        (restoreInput base nPos undo).2) := by
  simp only [restoreInput, undoHeight, ne_eq, not_true_eq_false, ↓reduceIte]
  rfl

theorem restoreInput_restores (ofBlock : Prop) (coins spent base : CCoins) (out : COutPoint)
    (undo : CTxInUndo) (clean : coins.Clean) (blank : coins.Blank)
    (succeeds : coins.spend out = some (spent, undo)) (same : Restored ofBlock spent base)
    (restorable : Restorable ofBlock coins spent) :
    Restored ofBlock coins (restoreInput base out.n undo.back).1.cleanup ∧
      (restoreInput base out.n undo.back).2 = true := by
  by_cases last : spent.vout = []
  · obtain ⟨notStake, height, version⟩ := restorable last
    have data := spend_undo_last coins out spent undo succeeds last
    have pruned := (spend_clean coins out spent undo succeeds).isPruned_iff.mpr last
    obtain ⟨record, restoredVersion, fits⟩ := restoreInput_last coins spent base out undo clean blank
      succeeds (same.isPruned pruned) last notStake height
    refine ⟨⟨coins.nVersion, ?_, ?_⟩, fits⟩
    · rw [record]
      exact equal_refl coins
    · rcases version with nonNegative | own
      · left
        have sameVersion : undo.back.nVersion = coins.nVersion := by
          rw [data, CTxInUndo.back, if_neg height, if_neg (Int.not_lt.mpr nonNegative)]
        rw [cleanup_nVersion, restoredVersion, sameVersion]
      · by_cases negative : coins.nVersion < 0
        · exact .inr ⟨own, negative⟩
        · left
          have sameVersion : undo.back.nVersion = coins.nVersion := by
            rw [data, CTxInUndo.back, if_neg height, if_neg negative]
          rw [cleanup_nVersion, restoredVersion, sameVersion]
  · obtain ⟨nVersion, equalRecords, version⟩ := same
    have spentClean := spend_clean coins out spent undo succeeds
    have isOpen : spent.isPruned = false := by
      simpa using fun pruned => last (spentClean.isPruned_iff.mp pruned)
    have eq := equal_open spent { base with nVersion := nVersion } equalRecords isOpen
    have undoHeight : undo.back.nHeight = 0 :=
      spend_undo_remaining coins out spent undo succeeds last
    obtain ⟨record, fits⟩ := restoreInput_open coins spent out undo clean blank succeeds last
    rw [← eq, restoreInput_version base out.n undo.back nVersion undoHeight] at record fits
    have sameVersion := (spend_fields coins out spent undo succeeds).2.2.2
    refine ⟨⟨nVersion, ?_, ?_⟩, fits⟩
    · have whole : { (restoreInput base out.n undo.back).1.cleanup with nVersion := nVersion } =
          coins := record
      rw [whole]
      exact equal_refl coins
    · rw [cleanup_nVersion, ← sameVersion]
      simpa only [restoreInput, undoHeight, ne_eq, not_true_eq_false, ↓reduceIte] using version

theorem restoreInput_remaining (base : CCoins) (nPos : Nat) (undo : CTxInUndo)
    (undoHeight : undo.nHeight = 0) :
    (restoreInput base nPos undo).1.fCoinStake = base.fCoinStake ∧
      (restoreInput base nPos undo).1.nVersion = base.nVersion ∧
      ((restoreInput base nPos undo).2 = true → base.isPruned = false) := by
  refine ⟨?_, ?_, ?_⟩
  · simp [restoreInput, undoHeight]
  · simp [restoreInput, undoHeight]
  · intro fits
    simp only [restoreInput, undoHeight, ne_eq, not_true_eq_false, ↓reduceIte,
      Bool.and_eq_true] at fits
    simpa using fits.1

/-- With the last output the coinstake flag and a negative version are lost, and a record of height
zero is taken for one that has outputs left. -/
theorem restoreInput_breaks (ofBlock : Prop) (coins spent base : CCoins) (out : COutPoint)
    (undo : CTxInUndo) (succeeds : coins.spend out = some (spent, undo))
    (same : Restored ofBlock spent base) (broken : ¬ Restorable ofBlock coins spent) :
    Apart ofBlock coins (restoreInput base out.n undo.back).1.cleanup ∨
      (restoreInput base out.n undo.back).2 = false := by
  obtain ⟨taken, _, _⟩ := spend_some coins out spent undo succeeds
  have spentClean := spend_clean coins out spent undo succeeds
  simp only [Restorable, Classical.not_imp, not_and_or, not_or, Bool.not_eq_false, not_not,
    Int.not_le] at broken
  obtain ⟨last, lacking⟩ := broken
  have data := spend_undo_last coins out spent undo succeeds last
  have sameHeight : undo.back.nHeight = coins.nHeight := congrArg CTxInUndo.nHeight data
  have basePruned := same.isPruned (spentClean.isPruned_iff.mpr last)
  by_cases height : coins.nHeight = 0
  · right
    by_contra fits
    have isOpen := (restoreInput_remaining base out.n undo.back (by rw [sameHeight, height])).2.2
      (by simpa using fits)
    rw [basePruned] at isOpen
    cases isOpen
  · left
    refine ⟨not_isPruned_of_coin coins out.n undo.txout taken, .inr ?_⟩
    have undoHeight : undo.back.nHeight ≠ 0 := by
      rw [sameHeight]
      exact height
    rw [restoreInput, if_pos undoHeight]
    rcases lacking with stake | zero | negative
    · left
      rw [stake]
      simp [empty]
    · exact absurd zero height
    · right
      refine ⟨?_, negative.2⟩
      have version : undo.back.nVersion = coins.nVersion % 128 := by
        rw [data, CTxInUndo.back, if_neg height, if_pos negative.1]
      have below := negative.1
      have other : coins.nVersion % 128 ≠ coins.nVersion := by omega
      rw [cleanup_nVersion, version]
      exact other

theorem restoreInput_persists (ofBlock : Prop) (coins spent base : CCoins) (out : COutPoint)
    (undo : CTxInUndo) (succeeds : coins.spend out = some (spent, undo))
    (apart : Apart ofBlock spent base) :
    Apart ofBlock coins (restoreInput base out.n undo.back).1.cleanup ∨
      (restoreInput base out.n undo.back).2 = false := by
  obtain ⟨taken, _, _⟩ := spend_some coins out spent undo succeeds
  obtain ⟨isOpen, different⟩ := apart
  have spentClean := spend_clean coins out spent undo succeeds
  have more : spent.vout ≠ [] := by
    intro none
    rw [spentClean.isPruned_iff.mpr none] at isOpen
    cases isOpen
  obtain ⟨_, sameStake, _, sameVersion⟩ := spend_fields coins out spent undo succeeds
  obtain ⟨stakeKept, versionKept, needsOpen⟩ := restoreInput_remaining base out.n undo.back
    (spend_undo_remaining coins out spent undo succeeds more)
  by_cases fits : (restoreInput base out.n undo.back).2 = true
  · left
    refine ⟨not_isPruned_of_coin coins out.n undo.txout taken, .inr ?_⟩
    rw [cleanup_fCoinStake, cleanup_nVersion, stakeKept, versionKept, ← sameStake, ← sameVersion]
    rcases different with pruned | stake | version
    · rw [needsOpen fits] at pruned
      cases pruned
    · exact .inl stake
    · exact .inr version
  · right
    simpa using fits

/-- A record of a chain of fewer than 2^30 blocks, whose scripts came in messages. -/
structure Sized (coins : CCoins) : Prop where
  blank : coins.Blank
  height : coins.nHeight < 2 ^ 30
  version : Format.Int32 coins.nVersion
  scripts : ∀ txout ∈ coins.vout, txout.scriptPubKey.length ≤ MAX_SIZE

theorem empty_sized : empty.Sized where
  blank := empty_blank
  height := by decide
  version := by decide
  scripts := fun _ member => absurd member List.not_mem_nil

theorem spend_sized (coins : CCoins) (out : COutPoint) (spent : CCoins) (undo : CTxInUndo)
    (sized : coins.Sized) (succeeds : coins.spend out = some (spent, undo)) :
    spent.Sized ∧ undo.Sized := by
  obtain ⟨_, _, sameHeight, sameVersion⟩ := spend_fields coins out spent undo succeeds
  obtain ⟨taken, spentEq, data⟩ := spend_some coins out spent undo succeeds
  have member := List.mem_of_getElem? (Option.filter_eq_some_iff.mp taken).1
  refine ⟨⟨spend_blank coins out spent undo sized.blank succeeds, ?_, ?_, ?_⟩, ?_⟩
  · rw [sameHeight]
    exact sized.height
  · rw [sameVersion]
    exact sized.version
  · intro txout left
    rw [spentEq] at left
    rcases List.mem_or_eq_of_mem_set (mem_cleanup _ txout left) with old | new
    · exact sized.scripts txout old
    · rw [new]
      exact Nat.zero_le _
  · rw [data]
    split
    next => exact ⟨sized.height, sized.version, sized.scripts undo.txout member⟩
    next =>
      exact ⟨Nat.two_pow_pos 30, (by decide : Format.Int32 0), sized.scripts undo.txout member⟩

def Writable (tx : CTransaction) (nHeight : Nat) : Prop :=
  (∀ txout ∈ tx.vout, 0 ≤ txout.nValue ∧ txout.scriptPubKey.length ≤ MAX_SIZE) ∧
    Format.Int32 tx.nVersion ∧ nHeight < 2 ^ 30

instance (tx : CTransaction) (nHeight : Nat) : Decidable (Writable tx nHeight) :=
  inferInstanceAs (Decidable ((∀ txout ∈ tx.vout, _) ∧ Format.Int32 tx.nVersion ∧ nHeight < 2 ^ 30))

theorem fromTx_sized (tx : CTransaction) (nHeight : Nat) (writable : Writable tx nHeight) :
    (fromTx tx nHeight).Sized := by
  obtain ⟨outputs, version, height⟩ := writable
  refine ⟨fromTx_blank tx nHeight fun txout member => (outputs txout member).1, height, version, ?_⟩
  intro txout member
  obtain ⟨original, present, rfl⟩ := List.mem_map.mp (mem_cleanup _ txout member)
  split
  next => exact Nat.zero_le _
  next => exact (outputs original present).2

theorem clearUnspendable_pruned (coins : CCoins) (pruned : coins.isPruned = true) :
    coins.clearUnspendable.isPruned = true := by
  rw [clearUnspendable, isPruned_cleanup]
  simp only [isPruned, List.all_eq_true, List.mem_map] at pruned ⊢
  intro txout cleared
  obtain ⟨original, member, rfl⟩ := cleared
  split
  next => rfl
  next => exact pruned original member

theorem clearUnspendable_fixed (coins : CCoins) (clean : coins.Clean)
    (spendable : ∀ txout ∈ coins.vout, CScript.isUnspendable txout.scriptPubKey = false) :
    coins.clearUnspendable = coins := by
  have same : (coins.vout.map fun txout =>
      if CScript.isUnspendable txout.scriptPubKey then CTxOut.null else txout) = coins.vout := by
    calc
      _ = coins.vout.map id := by
        apply List.map_congr_left
        intro txout member
        simp [spendable txout member]
      _ = coins.vout := List.map_id _
  rw [clearUnspendable, same]
  exact clean

theorem fromTx_spendable (tx : CTransaction) (nHeight : Nat) :
    ∀ txout ∈ (fromTx tx nHeight).vout, CScript.isUnspendable txout.scriptPubKey = false := by
  intro txout member
  obtain ⟨original, _, rfl⟩ := List.mem_map.mp (mem_cleanup _ txout member)
  split
  next => rfl
  next spendable => simpa using spendable

theorem matchesBlock_of_equal (coins : CCoins) (tx : CTransaction) (nHeight : Nat)
    (same : equal (fromTx tx nHeight) coins = true) : coins.matchesBlock tx nHeight = true := by
  rw [matchesBlock, equal_iff]
  by_cases pruned : (fromTx tx nHeight).isPruned = true
  · left
    exact ⟨clearUnspendable_pruned coins (equal_pruned _ coins same pruned), pruned⟩
  · right
    have eq := equal_open _ coins same (by simpa using pruned)
    rw [eq, clearUnspendable_fixed _ (fromTx_clean tx nHeight) (fromTx_spendable tx nHeight)]
    simp

theorem matchesBlock_version (coins : CCoins) (tx : CTransaction) (nHeight : Nat) (nVersion : Int)
    (negative : tx.nVersion < 0) :
    matchesBlock { coins with nVersion := nVersion } tx nHeight = matchesBlock coins tx nHeight := by
  have version : (fromTx tx nHeight).nVersion < 0 := negative
  simp only [matchesBlock, if_pos version]
  rfl

theorem matchesBlock_of_restored (ofBlock : Prop) (coins : CCoins) (tx : CTransaction)
    (nHeight : Nat) (restored : Restored ofBlock (fromTx tx nHeight) coins) :
    coins.matchesBlock tx nHeight = true := by
  obtain ⟨nVersion, same, version⟩ := restored
  have corrected := matchesBlock_of_equal _ tx nHeight same
  rcases version with rfl | excused
  · exact corrected
  · rwa [matchesBlock_version coins tx nHeight nVersion excused.2] at corrected

theorem matchesBlock_apart (ofBlock : Prop) (own : ofBlock) (coins : CCoins) (tx : CTransaction)
    (nHeight : Nat) (apart : Apart ofBlock (fromTx tx nHeight) coins) :
    coins.matchesBlock tx nHeight = false := by
  obtain ⟨isOpen, different⟩ := apart
  by_contra fits
  have equal_outs : coins.matchesBlock tx nHeight = true := by simpa using fits
  rw [matchesBlock, equal_iff] at equal_outs
  rcases equal_outs with pruned | same
  · rw [isOpen] at pruned
    cases pruned.2
  · rcases different with gone | stake | version
    · have open_outs := congrArg isPruned same
      rw [isOpen] at open_outs
      have pruned := clearUnspendable_pruned coins gone
      simp only [isPruned] at open_outs pruned
      rw [pruned] at open_outs
      cases open_outs
    · have sameStake := congrArg CCoins.fCoinStake same
      exact stake sameStake
    · exact version.2 own

end CCoins

namespace CCoinsView

variable (view : CCoinsView)

def removeOutputs [TxHasher] (tx : CTransaction) (nHeight : Nat) : CCoinsView × Bool :=
  (view.modifyCoins tx.getHash CCoins.clear, (view.record tx.getHash).matchesBlock tx nHeight)

def restoreInput (out : COutPoint) (undo : CTxInUndo) : CCoinsView × Bool :=
  let restored := (view.record out.hash).restoreInput out.n undo
  (view.modifyCoins out.hash fun _ => restored.1, restored.2)

-- The last input comes first.
def restoreInputs : List (CTxIn × CTxInUndo) → CCoinsView → CCoinsView × Bool
  | [], view => (view, true)
  | (txin, undo) :: rest, view =>
      let later := restoreInputs rest view
      let here := later.1.restoreInput txin.prevout undo
      (here.1, later.2 && here.2)

end CCoinsView

end CryptoYen
