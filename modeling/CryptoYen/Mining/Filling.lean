import Mathlib.Data.Finset.Lattice.Fold
import Mathlib.Order.Lattice.Nat
import CryptoYen.Consensus.Connect
import CryptoYen.Mempool.Runs
import CryptoYen.Mining.Gathering

set_option autoImplicit false

namespace CryptoYen

section inputs

variable (view : CCoinsView) (tx : CTransaction)

theorem haveInputs_coin (available : view.haveInputs tx = true) (spending : tx.isCoinBase = false)
    (txin : CTxIn) (mem : txin ∈ tx.vin) : ∃ txout, view.coinAt txin.prevout = some txout := by
  rw [CCoinsView.haveInputs, spending, Bool.false_or, List.all_eq_true] at available
  have here := available txin mem
  rw [CCoinsView.isAvailable_eq] at here
  exact Option.isSome_iff_exists.mp here

theorem checkInputs_answers (ctx : NodeContext) (flags : BitVec 32)
    (tip : (ctx.mapBlockIndex view.hashBlock).isSome = true) (valued : tx.getValueOut.isSome = true)
    (available : view.haveInputs tx = true) :
    checkInputs ctx tx view true flags ≠ .error .assertion := by
  rw [checkInputs]
  cases spending : tx.isCoinBase with
  | true => exact fun failed => by cases failed
  | false =>
      have coin := haveInputs_coin view tx available spending
      rw [if_neg Bool.false_ne_true]
      intro failed
      rw [Except.bind_error] at failed
      obtain ⟨pindexPrev, found⟩ := Option.isSome_iff_exists.mp tip
      obtain ⟨nValueOut, valueOut⟩ := Option.isSome_iff_exists.mp valued
      rcases failed with value | ⟨_, _, scripts⟩
      · rw [checkInputsValue, available, found, Except.bind_error] at value
        rcases value with value | ⟨_, _, value⟩
        · cases value
        · rw [Except.bind_error] at value
          rcases value with value | ⟨nValueIn, _, fee⟩
          · have never (vin : List CTxIn) (inside : ∀ txin ∈ vin, txin ∈ tx.vin) (total : Int) :
                vin.foldlM (checkInput ctx view (pindexPrev.height + 1)) total ≠ .error .assertion := by
              induction vin generalizing total with
              | nil => exact fun failed => by cases failed
              | cons txin vin ih =>
                  obtain ⟨here, later⟩ := List.forall_mem_cons.mp inside
                  obtain ⟨txout, there⟩ := coin txin here
                  intro failed
                  rw [List.foldlM_cons, Except.bind_error] at failed
                  rcases failed with failed | ⟨mid, _, failed⟩
                  · simp [checkInput, there, assertion, Except.bind_error, require_error, Failure.dos,
                      pure, Except.pure] at failed
                  · exact ih later mid failed
            exact never tx.vin (fun txin mem => mem) 0 value
          · split at fee
            · cases fee
            · simp [checkFee, valueOut, assertion, Except.bind_error, require_error, Failure.dos] at fee
      · rw [if_pos rfl] at scripts
        obtain ⟨input, mem, script⟩ := forM_error _ _ _ scripts
        obtain ⟨txout, there⟩ := coin input.1 (List.fst_mem_of_mem_zipIdx mem)
        have checked (flags : BitVec 32) : scriptCheck ctx view flags tx input.2 input.1 =
            .ok (ctx.verifyScript flags tx input.2 txout.scriptPubKey) := by
          rw [scriptCheck, there]
          rfl
        simp only [checkScript, checked, bind, Except.bind] at script
        split at script
        · cases script
        · split at script
          · cases script
          · split at script <;> cases script

theorem getP2SHSigOpCount_isSome (available : view.haveInputs tx = true) :
    (getP2SHSigOpCount tx view).isSome = true := by
  rw [getP2SHSigOpCount]
  cases spending : tx.isCoinBase with
  | true => rfl
  | false =>
      have counted (vin : List CTxIn) (inside : ∀ txin ∈ vin, txin ∈ tx.vin) :
          (vin.mapM (inputSigOps view)).isSome = true := by
        induction vin with
        | nil => rfl
        | cons txin vin ih =>
            obtain ⟨here, later⟩ := List.forall_mem_cons.mp inside
            obtain ⟨txout, there⟩ := haveInputs_coin view tx available spending txin here
            obtain ⟨counts, rest⟩ := Option.isSome_iff_exists.mp (ih later)
            simp [inputSigOps, CCoinsView.getOutputFor, there, rest]
      rw [if_neg Bool.false_ne_true, Option.isSome_map]
      exact counted tx.vin fun txin mem => mem

theorem getValueIn_isSome (available : view.haveInputs tx = true) :
    (view.getValueIn tx).isSome = true := by
  cases spending : tx.isCoinBase with
  | true => rw [CCoinsView.getValueIn, spending, if_pos rfl, Option.isSome_some]
  | false => rw [view.getValueIn_eq tx spending available, Option.isSome_some]

theorem updateCoins_exists [TxHasher] (nHeight : Nat) (available : view.haveInputs tx = true)
    (distinct : tx.prevouts.Nodup) :
    ∃ next txundo, view.updateCoins tx nHeight = some (next, txundo) := by
  cases spending : tx.isCoinBase with
  | true => exact ⟨_, _, view.updateCoins_coinBase tx nHeight spending⟩
  | false =>
      have spent : (CCoinsView.spendInputs tx.vin view).isSome = true := by
        refine (CCoinsView.spendInputs_isSome tx.vin view).mpr ⟨distinct, ?_⟩
        simpa [CCoinsView.haveInputs, spending] using available
      rw [← view.updateCoins_isSome tx nHeight spending] at spent
      obtain ⟨⟨next, txundo⟩, updated⟩ := Option.isSome_iff_exists.mp spent
      exact ⟨next, txundo, updated⟩

theorem spendInputs_hashBlock (vin : List CTxIn) (view next : CCoinsView) (txundo : CTxUndo)
    (spent : CCoinsView.spendInputs vin view = some (next, txundo)) : next.hashBlock = view.hashBlock := by
  induction vin generalizing view txundo with
  | nil =>
      cases spent
      rfl
  | cons txin vin ih =>
      obtain ⟨mid, undo, undos, first, later, rfl⟩ :=
        (CCoinsView.spendInputs_cons _ _ _ _ _).mp spent
      obtain ⟨coins, _, rfl⟩ := view.spendCoin_some _ _ _ first
      have kept := ih _ _ later
      exact kept

theorem updateCoins_hashBlock [TxHasher] (nHeight : Nat) (next : CCoinsView) (txundo : CTxUndo)
    (updated : view.updateCoins tx nHeight = some (next, txundo)) : next.hashBlock = view.hashBlock := by
  obtain ⟨mid, spent, rfl⟩ := view.updateCoins_some tx nHeight next txundo updated
  rw [CCoinsView.spendTransaction] at spent
  split at spent
  · cases spent
    rfl
  · exact spendInputs_hashBlock tx.vin view mid txundo spent

end inputs

namespace COrphan

variable {P : Type} (orphan : COrphan P) (hash : Uint256)

def without : COrphan P := { orphan with setDependsOn := orphan.setDependsOn.erase hash }

def Last : Prop := orphan.setDependsOn ≠ ∅ ∧ orphan.setDependsOn.erase hash = ∅

instance : Decidable (orphan.Last hash) := inferInstanceAs (Decidable (_ ∧ _))

theorem without_without : (orphan.without hash).without hash = orphan.without hash := by
  simp [without]

theorem without_empty (none : orphan.setDependsOn = ∅) : orphan.without hash = orphan := by
  have same : orphan.setDependsOn.erase hash = orphan.setDependsOn := by rw [none, Finset.erase_empty]
  rw [without, same]

theorem without_last : ¬(orphan.without hash).Last hash := by
  rintro ⟨some_left, none_left⟩
  exact some_left (by simpa [without] using none_left)

end COrphan

namespace Miner

section release

variable {P : Type}

structure Released (hash : Uint256) (pointers : List Nat) (memory next : Heap.Memory (COrphan P))
    (pushed : List Nat) : Prop where
  live : next.live = memory.live
  content : ∀ p, next.content p =
    if p ∈ pointers then (memory.content p).without hash else memory.content p
  once : pushed.Nodup
  mem_pushed : ∀ p, p ∈ pushed ↔ p ∈ pointers ∧ (memory.content p).Last hash

theorem releaseOne_live (hash : Uint256) (memory : Heap.Memory (COrphan P)) (queue : List (TxPriority P))
    (p : Nat) (live : p ∈ memory.live) :
    releaseOne hash (memory, queue) p =
      some (memory.assign p ((memory.content p).without hash),
        queue ++ if (memory.content p).Last hash then [(memory.content p).queued] else []) := by
  rw [releaseOne, memory.deref_live p live, Option.map_some]
  by_cases none : (memory.content p).setDependsOn = ∅
  · have last : ¬(memory.content p).Last hash := fun last => last.1 none
    have same : memory.assign p (memory.content p) = memory := by
      rw [Heap.Memory.assign, Function.update_eq_self]
    rw [if_pos none, if_neg last, COrphan.without_empty _ _ none, same, List.append_nil]
  · rw [if_neg none]
    by_cases done : (memory.content p).setDependsOn.erase hash = ∅
    · rw [if_pos ⟨none, done⟩]
      simp only [if_pos done]
      rfl
    · have last : ¬(memory.content p).Last hash := fun last => done last.2
      rw [if_neg last, List.append_nil]
      simp only [if_neg done]
      rfl

theorem release_all (hash : Uint256) (pointers : List Nat) (memory : Heap.Memory (COrphan P))
    (queue : List (TxPriority P)) (live : ∀ p ∈ pointers, p ∈ memory.live) :
    ∃ next pushed,
      pointers.foldlM (releaseOne hash) (memory, queue) =
        some (next, queue ++ pushed.map fun p => (memory.content p).queued) ∧
      Released hash pointers memory next pushed := by
  induction pointers generalizing memory queue with
  | nil =>
      exact ⟨memory, [], by simp, rfl, fun p => (if_neg List.not_mem_nil).symm, List.nodup_nil, by simp⟩
  | cons p pointers ih =>
      obtain ⟨here, later⟩ := List.forall_mem_cons.mp live
      have content (q : Nat) : (memory.assign p ((memory.content p).without hash)).content q =
          if q = p then (memory.content q).without hash else memory.content q := by
        by_cases same : q = p
        · subst same
          simp [Heap.Memory.assign]
        · simp [Heap.Memory.assign, same]
      obtain ⟨next, pushed, ran, released⟩ :=
        ih (memory.assign p ((memory.content p).without hash))
          (queue ++ if (memory.content p).Last hash then [(memory.content p).queued] else []) later
      have apart (q : Nat) (mem : q ∈ pushed) : q ≠ p := by
        rintro rfl
        have last := ((released.mem_pushed q).mp mem).2
        rw [content, if_pos rfl] at last
        exact COrphan.without_last _ _ last
      have queued : (pushed.map fun q =>
          ((memory.assign p ((memory.content p).without hash)).content q).queued) =
          pushed.map fun q => (memory.content q).queued :=
        List.map_congr_left fun q mem => by rw [content, if_neg (apart q mem)]
      have mem_pushed (q : Nat) (other : q ≠ p) :
          q ∈ pushed ↔ q ∈ p :: pointers ∧ (memory.content q).Last hash := by
        rw [released.mem_pushed, content, if_neg other, List.mem_cons, or_iff_right other]
      refine ⟨next, (if (memory.content p).Last hash then [p] else []) ++ pushed, ?_, released.live,
        fun q => ?_, ?_, fun q => ?_⟩
      · rw [List.foldlM_cons, releaseOne_live hash memory queue p here]
        refine ran.trans ?_
        rw [queued, List.append_assoc, List.map_append]
        split <;> rfl
      · rw [released.content, content]
        by_cases same : q = p
        · subst same
          simp [COrphan.without_without]
        · simp [same]
      · refine List.nodup_append.mpr ⟨?_, released.once, fun q first r second same => ?_⟩
        · split
          · exact List.nodup_singleton p
          · exact List.nodup_nil
        · split at first
          · exact apart r second (same ▸ List.mem_singleton.mp first)
          · exact List.not_mem_nil first
      · rw [List.mem_append]
        by_cases same : q = p
        · subst same
          have not_later : q ∉ pushed := fun mem => apart q mem rfl
          by_cases last : (memory.content q).Last hash <;> simp [last, not_later]
        · rw [mem_pushed q same]
          split <;> simp [same]

end release

variable {P : Type} (miner : Miner P) [TxHasher]

def selected (vtx : List CTransaction) : Finset Uint256 := (vtx.map CTransaction.getHash).toFinset

def blockSize (vtx : List CTransaction) : Nat := 1000 + (vtx.map CTransaction.getSerializeSize).sum

structure Included (tx : CTransaction) (view : CCoinsView) (nTxFees : Int) (nTxSigOps : Nat) : Prop where
  have_inputs : view.haveInputs tx = true
  fees : ∃ nValueIn nValueOut, view.getValueIn tx = some nValueIn ∧ tx.getValueOut = some nValueOut ∧
    nTxFees = nValueIn - nValueOut
  sigOps : ∃ nP2SHSigOps, getP2SHSigOpCount tx view = some nP2SHSigOps ∧
    nTxSigOps = getLegacySigOpCount tx + nP2SHSigOps
  checked : checkInputs miner.toNodeContext tx view true MANDATORY_SCRIPT_VERIFY_FLAGS = .ok ()

/-- The transactions of a block that keeps its limits, each valid on the coins that the earlier ones
leave and none before what it waits for. -/
inductive Template : List CTransaction → List Int → List Nat → CCoinsView → Prop
  | empty : Template [] [] [] miner.pcoinsTip
  | add {vtx : List CTransaction} {vTxFees : List Int} {vTxSigOps : List Nat} {view : CCoinsView}
      (earlier : Template vtx vTxFees vTxSigOps view) (tx : CTransaction) (nTxFees : Int) (nTxSigOps : Nat)
      (next : CCoinsView) (txundo : CTxUndo) (mem : tx ∈ miner.eligibleTxs)
      (parents : miner.parents tx ⊆ selected vtx) (included : miner.Included tx view nTxFees nTxSigOps)
      (updated : view.updateCoins tx miner.nHeight.toNat = some (next, txundo))
      (small : blockSize vtx + tx.getSerializeSize < miner.nBlockMaxSize)
      (limited : 100 + vTxSigOps.sum + nTxSigOps < MAX_BLOCK_SIGOPS) :
      Template (vtx ++ [tx]) (vTxFees ++ [nTxFees]) (vTxSigOps ++ [nTxSigOps]) next

/-- The queue goes by fee: there is no room for priorities, or a transaction that was up for some block
so far was past that room or had no high priority. -/
def SortsByFee (vtx : List CTransaction) : Prop :=
  miner.nBlockPrioritySize = 0 ∨ ∃ earlier tx, earlier <+: vtx ∧ tx ∈ miner.eligibleTxs ∧
    miner.parents tx ⊆ selected earlier ∧
    (miner.nBlockPrioritySize ≤ blockSize earlier + tx.getSerializeSize ∨
      miner.rules.allowFree (miner.priority tx) = false)

/-- Why a transaction does not get into a block with some signature operations. -/
inductive Refused (tx : CTransaction) (vtx : List CTransaction) (nBlockSigOps : Nat)
    (view : CCoinsView) : Prop
  | size (full : miner.nBlockMaxSize ≤ blockSize vtx + tx.getSerializeSize)
  | sigOps (full : MAX_BLOCK_SIGOPS ≤ nBlockSigOps + getLegacySigOpCount tx)
  | free (byFee : miner.SortsByFee vtx) (feeRate : miner.feeRate tx < miner.minRelayTxFee)
      (deltas : (miner.pool.applyDeltas tx.getHash).1 ≤ 0 ∧ (miner.pool.applyDeltas tx.getHash).2 ≤ 0)
      (filled : miner.nBlockMinSize ≤ blockSize vtx + tx.getSerializeSize)
  | inputs (missing : view.haveInputs tx = false)
  | p2shSigOps (nP2SHSigOps : Nat) (counted : getP2SHSigOpCount tx view = some nP2SHSigOps)
      (full : MAX_BLOCK_SIGOPS ≤ nBlockSigOps + (getLegacySigOpCount tx + nP2SHSigOps))
  | checks (failure : Failure)
      (failed : checkInputs miner.toNodeContext tx view true MANDATORY_SCRIPT_VERIFY_FLAGS = .error failure)

structure Assembled (state : Assembly P) : Prop where
  template : miner.Template state.vtx state.vTxFees state.vTxSigOps state.view
  size : state.nBlockSize = blockSize state.vtx
  count : state.nBlockTx = state.vtx.length
  sigOps : state.nBlockSigOps = 100 + state.vTxSigOps.sum
  fees : state.nFees = state.vTxFees.sum
  byFee : state.fSortedByFee = true → miner.SortsByFee state.vtx

variable {miner}

theorem SortsByFee.later {vtx later : List CTransaction} (same : vtx <+: later)
    (byFee : miner.SortsByFee vtx) : miner.SortsByFee later := by
  refine byFee.imp id fun past => ?_
  obtain ⟨earlier, tx, within, rest⟩ := past
  exact ⟨earlier, tx, within.trans same, rest⟩

theorem Template.hashBlock {vtx : List CTransaction} {vTxFees : List Int} {vTxSigOps : List Nat}
    {view : CCoinsView} (template : miner.Template vtx vTxFees vTxSigOps view) :
    view.hashBlock = miner.pcoinsTip.hashBlock := by
  induction template with
  | empty => rfl
  | add _ _ _ _ _ _ _ _ _ updated _ _ ih => exact (updateCoins_hashBlock _ _ _ _ _ updated).trans ih

omit [TxHasher] in
theorem mem_eligibleTxs (tx : CTransaction) :
    tx ∈ miner.eligibleTxs ↔ miner.pool.Holds tx ∧ miner.eligible tx = true := by
  rw [eligibleTxs, List.mem_filter, mem_sortedTxs]

section consider

variable (mapDependers : AList fun _ : Uint256 => List Nat) {state : Assembly P}

theorem tryAdd_cases (minable : miner.Minable) (assembled : miner.Assembled state) (tx : CTransaction)
    (held : miner.pool.Holds tx) :
    (miner.tryAdd mapDependers tx (getLegacySigOpCount tx) state = some state ∧
      miner.Refused tx state.vtx state.nBlockSigOps state.view) ∨
    ∃ nTxFees nTxSigOps next txundo,
      miner.tryAdd mapDependers tx (getLegacySigOpCount tx) state =
        release mapDependers tx.getHash (add tx nTxFees nTxSigOps next state) ∧
      miner.Included tx state.view nTxFees nTxSigOps ∧
      state.view.updateCoins tx miner.nHeight.toNat = some (next, txundo) ∧
      state.nBlockSigOps + nTxSigOps < MAX_BLOCK_SIGOPS := by
  rw [tryAdd]
  cases available : state.view.haveInputs tx with
  | false => exact .inl ⟨by rw [Bool.not_false, if_pos rfl], .inputs available⟩
  | true =>
      obtain ⟨nValueIn, valueIn⟩ := Option.isSome_iff_exists.mp (getValueIn_isSome _ _ available)
      obtain ⟨nValueOut, valueOut⟩ := Option.isSome_iff_exists.mp (minable.valued _ held)
      obtain ⟨nP2SHSigOps, counted⟩ :=
        Option.isSome_iff_exists.mp (getP2SHSigOpCount_isSome _ _ available)
      simp only [Bool.not_true, Bool.false_eq_true, if_false, valueIn, valueOut, counted,
        Option.bind_eq_bind, Option.bind_some]
      by_cases p2sh : MAX_BLOCK_SIGOPS ≤ state.nBlockSigOps + (getLegacySigOpCount tx + nP2SHSigOps)
      · exact .inl ⟨if_pos p2sh, .p2shSigOps nP2SHSigOps counted p2sh⟩
      rw [if_neg p2sh]
      cases checked : checkInputs miner.toNodeContext tx state.view true
          MANDATORY_SCRIPT_VERIFY_FLAGS with
      | error failure =>
          have tip : (miner.mapBlockIndex state.view.hashBlock).isSome = true := by
            rw [assembled.template.hashBlock]
            exact minable.tip
          cases failure with
          | assertion =>
              exact absurd checked (checkInputs_answers _ _ _ _ tip (minable.valued _ held) available)
          | invalid | error | rejected => exact .inl ⟨rfl, .checks _ checked⟩
      | ok _ =>
          obtain ⟨next, txundo, updated⟩ := updateCoins_exists state.view tx miner.nHeight.toNat
            available (minable.distinct _ held)
          rw [updated, Option.bind_some]
          exact .inr ⟨_, _, next, txundo, rfl,
            ⟨available, ⟨nValueIn, nValueOut, valueIn, valueOut, rfl⟩, ⟨nP2SHSigOps, counted, rfl⟩, checked⟩,
            rfl, Nat.lt_of_not_le p2sh⟩

theorem Assembled.sortedByFee (assembled : miner.Assembled state) (fSortedByFee : Bool)
    (byFee : fSortedByFee = true → miner.SortsByFee state.vtx) :
    miner.Assembled { state with fSortedByFee } :=
  ⟨assembled.template, assembled.size, assembled.count, assembled.sigOps, assembled.fees, byFee⟩

theorem consider_cases (minable : miner.Minable) (assembled : miner.Assembled state) (top : TxPriority P)
    (mem : top.ptx ∈ miner.eligibleTxs) (parents : miner.parents top.ptx ⊆ selected state.vtx)
    (rate : miner.Rated top) :
    ∃ fSortedByFee, (fSortedByFee = true → miner.SortsByFee state.vtx) ∧
      ((miner.consider mapDependers top state = some { state with fSortedByFee } ∧
        miner.Refused top.ptx state.vtx state.nBlockSigOps state.view) ∨
      state.nBlockSize + top.ptx.getSerializeSize < miner.nBlockMaxSize ∧
        ∃ nTxFees nTxSigOps next txundo,
          miner.consider mapDependers top state = release mapDependers top.ptx.getHash
            (add top.ptx nTxFees nTxSigOps next { state with fSortedByFee }) ∧
          miner.Included top.ptx state.view nTxFees nTxSigOps ∧
          state.view.updateCoins top.ptx miner.nHeight.toNat = some (next, txundo) ∧
          state.nBlockSigOps + nTxSigOps < MAX_BLOCK_SIGOPS) := by
  obtain ⟨held, _⟩ := (mem_eligibleTxs _).mp mem
  rw [consider]
  dsimp only
  by_cases size : miner.nBlockMaxSize ≤ state.nBlockSize + top.ptx.getSerializeSize
  · exact ⟨state.fSortedByFee, assembled.byFee, .inl ⟨if_pos size, .size (assembled.size ▸ size)⟩⟩
  rw [if_neg size]
  by_cases legacy : MAX_BLOCK_SIGOPS ≤ state.nBlockSigOps + getLegacySigOpCount top.ptx
  · exact ⟨state.fSortedByFee, assembled.byFee, .inl ⟨if_pos legacy, .sigOps legacy⟩⟩
  rw [if_neg legacy]
  by_cases skipped : miner.skipsFree top state = true
  · have why := skipped
    simp only [skipsFree, Bool.and_eq_true, decide_eq_true_eq] at why
    obtain ⟨⟨⟨⟨sorted, delta⟩, feeDelta⟩, cheap⟩, filled⟩ := why
    exact ⟨state.fSortedByFee, assembled.byFee, .inl ⟨if_pos skipped, .free (assembled.byFee sorted)
      (rate.feeRate ▸ cheap) ⟨delta, feeDelta⟩ (assembled.size ▸ filled)⟩⟩
  rw [if_neg skipped]
  have byFee : (state.fSortedByFee || (decide (miner.nBlockPrioritySize ≤
      state.nBlockSize + top.ptx.getSerializeSize) || !miner.rules.allowFree top.dPriority)) = true →
      miner.SortsByFee state.vtx := by
    rw [Bool.or_eq_true, Bool.or_eq_true, decide_eq_true_eq, Bool.not_eq_true', assembled.size,
      rate.dPriority]
    rintro (sorted | past)
    · exact assembled.byFee sorted
    · exact .inr ⟨state.vtx, top.ptx, List.prefix_rfl, mem, parents, past⟩
  exact ⟨_, byFee, (tryAdd_cases mapDependers minable (assembled.sortedByFee _ byFee) top.ptx held).imp id
    fun added => ⟨Nat.lt_of_not_le size, added⟩⟩

end consider

section schedule

theorem selected_add (vtx : List CTransaction) (tx : CTransaction) :
    selected (vtx ++ [tx]) = insert tx.getHash (selected vtx) := by
  ext hash
  simp [selected]

omit [TxHasher] in
theorem filter_grow {α : Type} (p q : α → Bool) (grows : ∀ a, p a = true → q a = true) (l : List α) :
    (l.filter p ++ l.filter fun a => !p a && q a).Perm (l.filter q) := by
  have split := List.filter_append_perm p (l.filter q)
  have first : (l.filter q).filter p = l.filter p := by
    rw [List.filter_filter]
    refine List.filter_congr fun a _ => ?_
    cases here : p a with
    | true => rw [grows a here, Bool.and_self]
    | false => rw [Bool.false_and]
  rw [first, List.filter_filter] at split
  exact split

def freed (miner : Miner P) (before : Finset Uint256) (hash : Uint256) (tx : CTransaction) : Bool :=
  !decide (miner.parents tx ⊆ before) && decide (miner.parents tx ⊆ insert hash before)

omit [TxHasher] in
theorem freed_iff (before : Finset Uint256) (hash : Uint256) (tx : CTransaction) :
    miner.freed before hash tx = true ↔
      miner.parents tx \ before ≠ ∅ ∧ (miner.parents tx \ before).erase hash = ∅ := by
  rw [freed, Bool.and_eq_true, Bool.not_eq_true', decide_eq_false_iff_not, decide_eq_true_eq,
    Finset.erase_eq, sdiff_sdiff_left, Ne, Finset.sdiff_eq_empty_iff_subset, Finset.sdiff_eq_empty_iff_subset,
    Finset.insert_eq, Finset.union_comm]
  rfl

variable {gathered : Gathered P} {state : Assembly P} {considered : List CTransaction}

def TurnedAway (miner : Miner P) (vtx : List CTransaction) (tx : CTransaction) : Prop :=
  ∃ earlier vTxFees vTxSigOps view, earlier <+: vtx ∧ miner.Template earlier vTxFees vTxSigOps view ∧
    miner.parents tx ⊆ selected earlier ∧
    miner.Refused tx earlier (100 + vTxSigOps.sum) view

/-- Between two passes of the loop, when some transactions have been considered: those with all
parents in the block have been considered or stand in the queue, and the others keep the parents that
are left. -/
structure Scheduled (miner : Miner P) (gathered : Gathered P) (state : Assembly P)
    (considered : List CTransaction) : Prop where
  assembled : miner.Assembled state
  live : state.memory.live = gathered.memory.live
  content : ∀ p ∈ gathered.vOrphan, state.memory.content p =
    { gathered.memory.content p with
      setDependsOn := miner.parents (gathered.memory.content p).ptx \ selected state.vtx }
  queue : (state.vecPriority.map TxPriority.ptx ++ considered).Perm
    (miner.eligibleTxs.filter fun tx => miner.parents tx ⊆ selected state.vtx)
  rates : ∀ top ∈ state.vecPriority, miner.Rated top
  taken : state.vtx.Sublist considered
  outcome : ∀ tx ∈ considered, tx ∈ state.vtx ∨ miner.TurnedAway state.vtx tx

theorem Sorted.scheduled (sorted : miner.Sorted miner.eligibleTxs gathered) :
    miner.Scheduled gathered (miner.emptyBlock gathered) [] where
  assembled := ⟨.empty, rfl, rfl, rfl, rfl, fun byFee => .inl (of_decide_eq_true byFee)⟩
  live := rfl
  content := fun p mem => by
    have same : miner.parents (gathered.memory.content p).ptx \ selected [] =
        (gathered.memory.content p).setDependsOn := by
      rw [sorted.setDependsOn p mem]
      exact Finset.sdiff_empty
    simp only [emptyBlock]
    rw [same]
  queue := by
    have none (tx : CTransaction) : (miner.parents tx ⊆ selected []) ↔ miner.parents tx = ∅ :=
      Finset.subset_empty
    simp only [emptyBlock, none]
    rw [List.append_nil, sorted.ready]
  rates := sorted.rates
  taken := List.nil_sublist _
  outcome := fun tx mem => absurd mem List.not_mem_nil

theorem Sorted.pushed (sorted : miner.Sorted miner.eligibleTxs gathered)
    (scheduled : miner.Scheduled gathered state considered) (hash : Uint256) (next : Heap.Memory (COrphan P))
    (pushed : List Nat)
    (released : Released hash (dependersOf gathered.mapDependers hash) state.memory next pushed) :
    (pushed.map fun p => (state.memory.content p).ptx).Perm
      (miner.eligibleTxs.filter (miner.freed (selected state.vtx) hash)) := by
  have last (p : Nat) (mem : p ∈ gathered.vOrphan) : (state.memory.content p).Last hash ↔
      miner.freed (selected state.vtx) hash (gathered.memory.content p).ptx = true := by
    rw [freed_iff, COrphan.Last, scheduled.content p mem]
  have mem_iff (p : Nat) : p ∈ pushed ↔ p ∈ gathered.vOrphan.filter fun p =>
      miner.freed (selected state.vtx) hash (gathered.memory.content p).ptx := by
    rw [released.mem_pushed, sorted.dependers, List.mem_filter]
    constructor
    · rintro ⟨⟨mem, _⟩, is_last⟩
      exact ⟨mem, (last p mem).mp is_last⟩
    · rintro ⟨mem, freed⟩
      refine ⟨⟨mem, ?_⟩, (last p mem).mpr freed⟩
      obtain ⟨some_left, none_left⟩ := (freed_iff _ _ _).mp freed
      obtain ⟨parent, missing⟩ := Finset.nonempty_iff_ne_empty.mpr some_left
      have same : parent = hash := by
        by_contra other
        exact Finset.notMem_empty parent (none_left ▸ Finset.mem_erase.mpr ⟨other, missing⟩)
      exact same ▸ (Finset.mem_sdiff.mp missing).1
  have perm := (List.perm_ext_iff_of_nodup released.once (sorted.separate.filter _)).mpr mem_iff
  have ptx : (pushed.map fun p => (state.memory.content p).ptx) =
      pushed.map fun p => (gathered.memory.content p).ptx :=
    List.map_congr_left fun p mem => by
      rw [scheduled.content p (List.mem_filter.mp ((mem_iff p).mp mem)).1]
  have waiting : (miner.eligibleTxs.filter fun tx => miner.parents tx ≠ ∅).filter
      (miner.freed (selected state.vtx) hash) =
      miner.eligibleTxs.filter (miner.freed (selected state.vtx) hash) := by
    rw [List.filter_filter]
    refine List.filter_congr fun tx _ => ?_
    cases freed : miner.freed (selected state.vtx) hash tx with
    | false => rw [Bool.false_and]
    | true =>
        have some_parents : miner.parents tx ≠ ∅ := fun none =>
          ((freed_iff _ _ _).mp freed).1 (by rw [none, Finset.empty_sdiff])
        rw [Bool.true_and, decide_eq_true some_parents]
  rw [ptx, ← waiting, ← sorted.waiting, List.filter_map]
  exact perm.map _

theorem TurnedAway.later {vtx later : List CTransaction} {tx : CTransaction} (same : vtx <+: later)
    (away : miner.TurnedAway vtx tx) : miner.TurnedAway later tx := by
  obtain ⟨earlier, vTxFees, vTxSigOps, view, within, rest⟩ := away
  exact ⟨earlier, vTxFees, vTxSigOps, view, within.trans same, rest⟩

section step

variable (sorted : miner.Sorted miner.eligibleTxs gathered)
  (scheduled : miner.Scheduled gathered state considered) {top : TxPriority P} {rest : List (TxPriority P)}
  (popped : (top :: rest).Perm state.vecPriority)

include scheduled popped

theorem Scheduled.popped_perm : (rest.map TxPriority.ptx ++ (considered ++ [top.ptx])).Perm
    (miner.eligibleTxs.filter fun tx => miner.parents tx ⊆ selected state.vtx) := by
  refine .trans ?_ scheduled.queue
  refine .trans ?_ ((popped.map TxPriority.ptx).append_right considered)
  rw [← List.append_assoc, List.map_cons]
  exact List.perm_append_singleton _ _

theorem Scheduled.top_ready :
    top.ptx ∈ miner.eligibleTxs ∧ miner.parents top.ptx ⊆ selected state.vtx ∧ miner.Rated top := by
  have mem : top.ptx ∈ rest.map TxPriority.ptx ++ (considered ++ [top.ptx]) := by simp
  rw [(scheduled.popped_perm popped).mem_iff, List.mem_filter, decide_eq_true_eq] at mem
  exact ⟨mem.1, mem.2, scheduled.rates top (popped.mem_iff.mp List.mem_cons_self)⟩

theorem Scheduled.skip (fSortedByFee : Bool)
    (byFee : fSortedByFee = true → miner.SortsByFee state.vtx)
    (refused : miner.Refused top.ptx state.vtx state.nBlockSigOps state.view) :
    miner.Scheduled gathered { state with vecPriority := rest, fSortedByFee }
      (considered ++ [top.ptx]) := by
  obtain ⟨_, parents, _⟩ := scheduled.top_ready popped
  rw [scheduled.assembled.sigOps] at refused
  refine ⟨⟨scheduled.assembled.template, scheduled.assembled.size, scheduled.assembled.count,
    scheduled.assembled.sigOps, scheduled.assembled.fees, byFee⟩, scheduled.live, scheduled.content,
    scheduled.popped_perm popped, fun other mem => ?_, ?_, fun tx mem => ?_⟩
  · exact scheduled.rates other (popped.mem_iff.mp (List.mem_cons_of_mem _ mem))
  · exact scheduled.taken.trans (List.sublist_append_left _ _)
  · rcases List.mem_append.mp mem with mem | mem
    · exact scheduled.outcome tx mem
    · rw [List.mem_singleton.mp mem]
      exact .inr ⟨state.vtx, state.vTxFees, state.vTxSigOps, state.view, List.prefix_rfl,
        scheduled.assembled.template, parents, refused⟩

include sorted

theorem Scheduled.take (fSortedByFee : Bool)
    (byFee : fSortedByFee = true → miner.SortsByFee state.vtx) (nTxFees : Int) (nTxSigOps : Nat) (view : CCoinsView)
    (txundo : CTxUndo) (included : miner.Included top.ptx state.view nTxFees nTxSigOps)
    (updated : state.view.updateCoins top.ptx miner.nHeight.toNat = some (view, txundo))
    (small : state.nBlockSize + top.ptx.getSerializeSize < miner.nBlockMaxSize)
    (limited : state.nBlockSigOps + nTxSigOps < MAX_BLOCK_SIGOPS) :
    ∃ next, release gathered.mapDependers top.ptx.getHash
        (add top.ptx nTxFees nTxSigOps view { state with vecPriority := rest, fSortedByFee }) = some next ∧
      miner.Scheduled gathered next (considered ++ [top.ptx]) := by
  obtain ⟨eligible, parents, _⟩ := scheduled.top_ready popped
  have assembled := scheduled.assembled
  have pointers (p : Nat) (mem : p ∈ dependersOf gathered.mapDependers top.ptx.getHash) :
      p ∈ gathered.vOrphan := ((sorted.dependers _ p).mp mem).1
  have live (p : Nat) (mem : p ∈ dependersOf gathered.mapDependers top.ptx.getHash) :
      p ∈ state.memory.live := by
    rw [scheduled.live]
    exact sorted.live p (pointers p mem)
  obtain ⟨memory, pushed, ran, released⟩ := release_all top.ptx.getHash _ state.memory rest live
  have freed := sorted.pushed scheduled _ memory pushed released
  rw [assembled.size] at small
  rw [assembled.sigOps] at limited
  refine ⟨_, by rw [release]; exact congrArg (Option.map _) ran, ⟨?_, ?_, ?_, ?_, ?_,
    fun sorted => (byFee sorted).later (List.prefix_append _ _)⟩, ?_, fun p mem => ?_,
    ?_, fun other mem => ?_, ?_, fun tx mem => ?_⟩
  · exact .add assembled.template top.ptx nTxFees nTxSigOps view txundo eligible parents included updated
      small limited
  · simp [add, assembled.size, blockSize, Nat.add_assoc]
  · simp [add, assembled.count]
  · simp [add, assembled.sigOps, Nat.add_assoc]
  · simp [add, assembled.fees]
  · exact released.live.trans scheduled.live
  · have kept : memory.content p = { gathered.memory.content p with
        setDependsOn := miner.parents (gathered.memory.content p).ptx \
          insert top.ptx.getHash (selected state.vtx) } := by
      rw [released.content, scheduled.content p mem, Finset.sdiff_insert]
      by_cases waits : top.ptx.getHash ∈ miner.parents (gathered.memory.content p).ptx
      · rw [if_pos ((sorted.dependers _ p).mpr ⟨mem, waits⟩), COrphan.without]
      · rw [if_neg fun depends => waits ((sorted.dependers _ p).mp depends).2,
          Finset.erase_eq_of_notMem fun inside => waits (Finset.mem_sdiff.mp inside).1]
    rw [← selected_add] at kept
    exact kept
  · have grown := filter_grow (fun tx => decide (miner.parents tx ⊆ selected state.vtx))
      (fun tx => decide (miner.parents tx ⊆ insert top.ptx.getHash (selected state.vtx)))
      (fun tx before => decide_eq_true ((of_decide_eq_true before).trans (Finset.subset_insert _ _)))
      miner.eligibleTxs
    simp only [add, selected_add]
    refine .trans ?_ (.trans ((scheduled.popped_perm popped).append freed) grown)
    rw [List.map_append, List.map_map, List.append_assoc, List.append_assoc]
    exact List.perm_append_comm.append_left _
  · rcases List.mem_append.mp mem with mem | mem
    · exact scheduled.rates other (popped.mem_iff.mp (List.mem_cons_of_mem _ mem))
    · obtain ⟨p, push, rfl⟩ := List.mem_map.mp mem
      have orphan := pointers p ((released.mem_pushed p).mp push).1
      have rate := sorted.orphanRates p orphan
      simp only [COrphan.queued, scheduled.content p orphan]
      exact rate
  · exact scheduled.taken.append (List.Sublist.refl _)
  · simp only [add]
    rcases List.mem_append.mp mem with mem | mem
    · exact (scheduled.outcome tx mem).imp (List.mem_append_left _) (.later (List.prefix_append _ _))
    · exact .inl (List.mem_append_right _ mem)

theorem Scheduled.consider (minable : miner.Minable) :
    ∃ next, miner.consider gathered.mapDependers top { state with vecPriority := rest } = some next ∧
      miner.Scheduled gathered next (considered ++ [top.ptx]) := by
  obtain ⟨eligible, parents, rate⟩ := scheduled.top_ready popped
  have assembled : miner.Assembled { state with vecPriority := rest } :=
    ⟨scheduled.assembled.template, scheduled.assembled.size, scheduled.assembled.count,
      scheduled.assembled.sigOps, scheduled.assembled.fees, scheduled.assembled.byFee⟩
  obtain ⟨fSortedByFee, byFee, ⟨skipped, refused⟩ | ⟨small, nTxFees, nTxSigOps, view, txundo, taken,
    included, updated, limited⟩⟩ :=
      consider_cases gathered.mapDependers minable assembled top eligible parents rate
  · exact ⟨_, skipped, scheduled.skip popped fSortedByFee byFee refused⟩
  · rw [taken]
    exact scheduled.take sorted popped fSortedByFee byFee nTxFees nTxSigOps view txundo included updated small
      limited

end step

theorem Scheduled.bounded (scheduled : miner.Scheduled gathered state considered) :
    state.vecPriority.length + considered.length ≤ miner.eligibleTxs.length := by
  have length := scheduled.queue.length_eq
  rw [List.length_append, List.length_map] at length
  exact length.trans_le (List.length_filter_le _ _)

theorem fill_scheduled (minable : miner.Minable) (sorted : miner.Sorted miner.eligibleTxs gathered)
    (fuel : Nat) (scheduled : miner.Scheduled gathered state considered)
    (enough : miner.eligibleTxs.length ≤ fuel + considered.length) :
    ∃ final considered, miner.fill gathered.mapDependers fuel state = some final ∧
      final.vecPriority = [] ∧ miner.Scheduled gathered final considered := by
  have bounded := scheduled.bounded
  induction fuel generalizing state considered with
  | zero =>
      have empty : state.vecPriority = [] := List.length_eq_zero_iff.mp (by omega)
      refine ⟨state, considered, ?_, empty, scheduled⟩
      rw [fill, empty, miner.heap.pop_nil]
  | succ fuel ih =>
      by_cases empty : state.vecPriority = []
      · refine ⟨state, considered, ?_, empty, scheduled⟩
        rw [fill, empty, miner.heap.pop_nil]
      · obtain ⟨top, rest, came_off, popped⟩ := miner.heap.pop_perm
          (TxPriorityCompare miner.rules state.fSortedByFee) state.vecPriority empty
        obtain ⟨next, taken, scheduled⟩ := scheduled.consider sorted popped minable
        have enough : miner.eligibleTxs.length ≤ fuel + (considered ++ [top.ptx]).length := by
          rw [List.length_append, List.length_singleton]
          omega
        obtain ⟨final, all, ran, ended, done⟩ := ih scheduled enough scheduled.bounded
        refine ⟨final, all, ?_, ended, done⟩
        rw [fill, came_off]
        dsimp only
        rw [taken]
        exact ran

end schedule

theorem createNewBlock_scheduled (minable : miner.Minable) :
    ∃ gathered block considered, miner.createNewBlock = some block ∧ block.vecPriority = [] ∧
      miner.Scheduled gathered block considered := by
  obtain ⟨gathered, collected, sorted⟩ := gather_sorted minable
  have enough : miner.eligibleTxs.length ≤ miner.pool.sortedTxs.length + ([] : List CTransaction).length :=
    List.length_filter_le _ _
  obtain ⟨block, considered, ran, ended, done⟩ :=
    fill_scheduled minable sorted miner.pool.sortedTxs.length sorted.scheduled enough
  exact ⟨gathered, block, considered, by rw [createNewBlock, collected]; exact ran, ended, done⟩

theorem Template.mem {vtx : List CTransaction} {vTxFees : List Int} {vTxSigOps : List Nat}
    {view : CCoinsView} (template : miner.Template vtx vTxFees vTxSigOps view) (tx : CTransaction)
    (mem : tx ∈ vtx) : tx ∈ miner.eligibleTxs := by
  induction template with
  | empty => exact absurd mem List.not_mem_nil
  | add _ last _ _ _ _ eligible _ _ _ _ _ ih =>
      rcases List.mem_append.mp mem with mem | mem
      · exact ih mem
      · exact List.mem_singleton.mp mem ▸ eligible

theorem Template.parents_before {vtx : List CTransaction} {vTxFees : List Int} {vTxSigOps : List Nat}
    {view : CCoinsView} (template : miner.Template vtx vTxFees vTxSigOps view)
    (earlier : List CTransaction) (tx : CTransaction) (within : earlier ++ [tx] <+: vtx) :
    miner.parents tx ⊆ selected earlier := by
  induction template with
  | empty => simp at within
  | add _ last _ _ _ _ _ parents _ _ _ _ ih =>
      rcases List.prefix_concat_iff.mp within with same | within
      · obtain ⟨rfl, newest⟩ := List.append_inj' same rfl
        exact List.singleton_inj.mp newest ▸ parents
      · exact ih within

/-- No transaction gets in twice or before one that it spends from, and one that is left out waits for
another that is left out or was turned away for a reason that held when its turn came. -/
theorem createNewBlock_schedules (minable : miner.Minable) :
    ∃ block, miner.createNewBlock = some block ∧
      (block.vtx.map CTransaction.getHash).Nodup ∧
      (∀ tx ∈ block.vtx, miner.pool.Holds tx ∧ miner.eligible tx = true) ∧
      (∀ earlier tx, earlier ++ [tx] <+: block.vtx → miner.parents tx ⊆ selected earlier) ∧
      ∀ tx, miner.pool.Holds tx → miner.eligible tx = true →
        tx ∈ block.vtx ∨ ¬miner.parents tx ⊆ selected block.vtx ∨ miner.TurnedAway block.vtx tx := by
  obtain ⟨gathered, block, considered, ran, ended, scheduled⟩ := createNewBlock_scheduled minable
  have all := scheduled.queue
  rw [ended, List.map_nil, List.nil_append] at all
  refine ⟨block, ran, ?_, fun tx mem => ?_, scheduled.assembled.template.parents_before,
    fun tx held eligible => ?_⟩
  · have distinct := sortedTxs_distinct miner.pool minable.keyed
    have eligible : (miner.eligibleTxs.map CTransaction.getHash).Nodup :=
      distinct.sublist (List.filter_sublist.map _)
    have once : (considered.map CTransaction.getHash).Nodup :=
      ((all.map _).nodup_iff).mpr (eligible.sublist (List.filter_sublist.map _))
    exact once.sublist (scheduled.taken.map _)
  · exact (mem_eligibleTxs tx).mp (scheduled.assembled.template.mem tx mem)
  · by_cases parents : miner.parents tx ⊆ selected block.vtx
    · have mem : tx ∈ considered :=
        all.mem_iff.mpr (List.mem_filter.mpr ⟨(mem_eligibleTxs tx).mpr ⟨held, eligible⟩,
          decide_eq_true parents⟩)
      exact (scheduled.outcome tx mem).imp id .inr
    · exact .inr (.inl parents)

end Miner

namespace ChainedPool

open DoubleSpend

def parent : CTransaction := spending 99900000

def pool : CTxMemPool :=
  { CTxMemPool.empty false with
    mapTx := ((∅ : AList fun _ : Uint256 => CTxMemPoolEntry).insert 99900000
      (newEntry context parent 100000)).insert 99800000 (newEntry context child 100000) }

def rules : PriorityRules Rat where
  zero := 0
  addInput := fun dPriority nValueIn nConf => dPriority + nValueIn * nConf
  divide := fun dPriorityInputs nTxSize => dPriorityInputs / nTxSize
  addDelta := fun dPriority dPriorityDelta => dPriority + dPriorityDelta
  allowFree := fun dPriority => decide (57600000 < dPriority)
  less := fun a b => decide (a < b)
  equal := fun a b => decide (a = b)

def heap : HeapQueue Rat where
  pop := fun comparer queue =>
    (queue.insertionSort fun a b => comparer a b = false).head?.map fun top =>
      (top, (queue.insertionSort fun a b => comparer a b = false).tail)
  pop_nil := fun _ => rfl
  pop_perm := fun comparer queue some_left => by
    have perm := List.perm_insertionSort (fun a b => comparer a b = false) queue
    cases sorted : queue.insertionSort fun a b => comparer a b = false with
    | nil => exact absurd (List.nil_perm.mp (sorted ▸ perm)) some_left
    | cons top rest => exact ⟨top, rest, rfl, sorted ▸ perm⟩

theorem behind_fresh (live : Finset Nat) : live.sup id + 1 ∉ live := by
  intro mem
  have small : live.sup id + 1 ≤ live.sup id := Finset.le_sup (f := id) mem
  omega

def miner : Miner Rat where
  toNodeContext := context.toNodeContext
  pool
  pcoinsTip := context.pcoinsTip
  rules
  heap
  allocator := ⟨fun live => live.sup id + 1, behind_fresh⟩
  nBlockMaxSize := 750000
  nBlockPrioritySize := 50000
  nBlockMinSize := 0
  minRelayTxFee := 10000

theorem holds (tx : CTransaction) (held : pool.Holds tx) : tx = parent ∨ tx = child := by
  obtain ⟨hash, entry, found, rfl⟩ := held
  simp only [pool, Assoc.lookup_insert] at found
  split at found
  · cases found
    exact .inr rfl
  · split at found
    · cases found
      exact .inl rfl
    · cases found

theorem minable : @Miner.Minable Rat miner valueHasher := by
  refine @Miner.Minable.mk Rat miner valueHasher rfl (fun hash entry found => ?_) (fun tx held => ?_)
    (fun tx held => ?_) (fun tx held => ?_) fun tx held txin mem absent => ?_
  · simp only [miner, pool, Assoc.lookup_insert] at found
    split at found
    next same =>
      cases found
      exact same.symm ▸ by decide
    next =>
      split at found
      next same =>
        cases found
        exact same.symm ▸ by decide
      next => cases found
  · rcases holds tx held with rfl | rfl <;> decide
  · rcases holds tx held with rfl | rfl <;> decide
  · rcases holds tx held with rfl | rfl <;> decide
  · rcases holds tx held with rfl | rfl
    · rw [List.mem_singleton.mp mem] at absent
      exact absurd absent (by decide)
    · rw [List.mem_singleton.mp mem]
      exact ⟨newEntry context parent 100000, rfl, by decide⟩

end ChainedPool

theorem Miner.createNewBlock_schedules_chained :
    ∃ block, @Miner.createNewBlock Rat ChainedPool.miner DoubleSpend.valueHasher = some block ∧
      (block.vtx.map (@CTransaction.getHash DoubleSpend.valueHasher)).Nodup := by
  obtain ⟨block, made, distinct, _⟩ :=
    @Miner.createNewBlock_schedules Rat ChainedPool.miner DoubleSpend.valueHasher ChainedPool.minable
  exact ⟨block, made, distinct⟩

end CryptoYen
