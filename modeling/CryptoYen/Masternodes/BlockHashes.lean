import CryptoYen.Consensus.Chain
import CryptoYen.Library.Assoc

set_option autoImplicit false

namespace CryptoYen

abbrev BlockHashCache := AList fun _ : Int => Uint256

-- The loop of GetBlockHash over the ancestors; the genesis block is never an answer.
def readBack (nBlocksAgo : Int) : Int → CChain → Option Uint256
  | _, [] => none
  | n, pindex :: pprev =>
      if pindex.nHeight = 0 then none
      else if nBlocksAgo ≤ n then some pindex.phashBlock
      else readBack nBlocksAgo (n + 1) pprev

-- Height zero asks for the height of the tip.
def askedHeight (chainActive : CChain) (nBlockHeight : Int) : Int :=
  if nBlockHeight = 0 then chainActive.height else nBlockHeight

/-- GetBlockHash: what it reports, and mapCacheBlockHashes after the call. -/
def getBlockHash (mapCacheBlockHashes : BlockHashCache) (chainActive : CChain)
    (nBlockHeight : Int) : Option Uint256 × BlockHashCache :=
  match chainActive with
  | [] => (none, mapCacheBlockHashes)
  | tip :: _ =>
      let asked := askedHeight chainActive nBlockHeight
      match mapCacheBlockHashes.lookup asked with
      | some hash => (some hash, mapCacheBlockHashes)
      | none =>
          if tip.nHeight = 0 ∨ (tip.nHeight + 1 : Int) < asked then (none, mapCacheBlockHashes)
          else
            let nBlocksAgo := if 0 < asked then (tip.nHeight + 1 : Int) - asked else 0
            match readBack nBlocksAgo 0 chainActive with
            | some hash => (some hash, mapCacheBlockHashes.insert asked hash)
            | none => (none, mapCacheBlockHashes)

class ScoreHasher where
  hash : Uint256 → Uint256
  hashPair : Uint256 → Uint256 → Uint256

def scoreOf [ScoreHasher] (hash : Uint256) (prevout : COutPoint) : Uint256 :=
  let aux := prevout.hash + BitVec.ofNat 256 prevout.n
  let hash2 := ScoreHasher.hash hash
  let hash3 := ScoreHasher.hashPair hash aux
  if hash2 < hash3 then hash3 - hash2 else hash2 - hash3

/-- CMasternode::CalculateScore of the masternode at an outpoint, whatever its parameter mod. -/
def calculateScore [ScoreHasher] (mapCacheBlockHashes : BlockHashCache) (chainActive : CChain)
    (prevout : COutPoint) (nBlockHeight : Int) : Uint256 :=
  match (getBlockHash mapCacheBlockHashes chainActive nBlockHeight).1 with
  | none => 0
  | some hash => scoreOf hash prevout

def CChain.hashAt (chain : CChain) (nHeight : Int) : Option Uint256 :=
  (chain.find? fun pindex => (pindex.nHeight : Int) == nHeight).map CBlockIndex.phashBlock

namespace CChain

theorem height_cons (head : CBlockIndex) (rest : CChain) :
    height (head :: rest) = head.nHeight := rfl

theorem height_of_linked (chain : CChain) (linked : chain.Linked) :
    chain.height = (chain.length : Int) - 1 := by
  cases chain with
  | nil => rfl
  | cons head rest => simp [height, linked.1]

theorem hashAt_cons (head : CBlockIndex) (rest : CChain) (nHeight : Int) :
    hashAt (head :: rest) nHeight =
      if (head.nHeight : Int) = nHeight then some head.phashBlock else hashAt rest nHeight := by
  unfold hashAt
  rw [List.find?_cons]
  by_cases same : (head.nHeight : Int) = nHeight
  · simp [same]
  · have other : ((head.nHeight : Int) == nHeight) = false := by simpa using same
    rw [other, if_neg same]

theorem hashAt_isSome (chain : CChain) (linked : chain.Linked) (nHeight : Int)
    (low : 0 ≤ nHeight) (high : nHeight ≤ chain.height) : (chain.hashAt nHeight).isSome = true := by
  induction chain with
  | nil =>
      simp only [height] at high
      omega
  | cons head rest ih =>
      rw [hashAt_cons]
      split
      next => rfl
      next elsewhere =>
        refine ih linked.2 ?_
        have rest_height := height_of_linked rest linked.2
        have head_height := linked.1
        simp only [height] at high
        omega

end CChain

theorem readBack_linked (chain : CChain) (linked : chain.Linked) (nBlocksAgo n : Int)
    (start : n ≤ nBlocksAgo) :
    readBack nBlocksAgo n chain =
      if 1 ≤ chain.height - (nBlocksAgo - n) then chain.hashAt (chain.height - (nBlocksAgo - n))
      else none := by
  induction chain generalizing n with
  | nil =>
      have outside : ¬ 1 ≤ CChain.height [] - (nBlocksAgo - n) := by
        simp only [CChain.height]
        omega
      rw [if_neg outside]
      rfl
  | cons head rest ih =>
      have rest_height := CChain.height_of_linked rest linked.2
      have head_height := linked.1
      rw [readBack, CChain.height_cons]
      by_cases genesis : head.nHeight = 0
      · have outside : ¬ 1 ≤ (head.nHeight : Int) - (nBlocksAgo - n) := by omega
        rw [if_pos genesis, if_neg outside]
      · rw [if_neg genesis, CChain.hashAt_cons]
        by_cases arrived : nBlocksAgo ≤ n
        · have here : (head.nHeight : Int) - (nBlocksAgo - n) = head.nHeight := by omega
          have inside : 1 ≤ (head.nHeight : Int) := by omega
          simp [arrived, here, inside]
        · have further := ih linked.2 (n + 1) (by omega)
          have same : CChain.height rest - (nBlocksAgo - (n + 1)) =
              (head.nHeight : Int) - (nBlocksAgo - n) := by omega
          have elsewhere : (head.nHeight : Int) ≠ head.nHeight - (nBlocksAgo - n) := by omega
          rw [if_neg arrived, further, same, if_neg elsewhere]

def CChain.Answers (chain : CChain) (nBlockHeight : Int) : Prop :=
  2 ≤ nBlockHeight ∧ nBlockHeight ≤ chain.height + 1

instance (chain : CChain) (nBlockHeight : Int) : Decidable (chain.Answers nBlockHeight) :=
  inferInstanceAs (Decidable (_ ∧ _))

section

variable (cache : BlockHashCache) (chain : CChain) (nBlockHeight : Int)

theorem getBlockHash_cached (hash : Uint256) (nonEmpty : chain ≠ [])
    (cached : cache.lookup (askedHeight chain nBlockHeight) = some hash) :
    getBlockHash cache chain nBlockHeight = (some hash, cache) := by
  cases chain with
  | nil => exact absurd rfl nonEmpty
  | cons tip ancestors => simp [getBlockHash, cached]

theorem getBlockHash_fresh (linked : chain.Linked) (positive : 0 < askedHeight chain nBlockHeight)
    (uncached : cache.lookup (askedHeight chain nBlockHeight) = none) :
    getBlockHash cache chain nBlockHeight =
      if chain.Answers (askedHeight chain nBlockHeight) then
        (chain.hashAt (askedHeight chain nBlockHeight - 1),
          match chain.hashAt (askedHeight chain nBlockHeight - 1) with
          | some hash => cache.insert (askedHeight chain nBlockHeight) hash
          | none => cache)
      else (none, cache) := by
  cases chain with
  | nil =>
      have outside : ¬ CChain.Answers [] (askedHeight [] nBlockHeight) := by
        simp only [CChain.Answers, CChain.height]
        omega
      rw [if_neg outside]
      rfl
  | cons tip ancestors =>
      generalize asked_eq : askedHeight (tip :: ancestors) nBlockHeight = asked at *
      have answers : CChain.Answers (tip :: ancestors) asked ↔
          2 ≤ asked ∧ asked ≤ (tip.nHeight : Int) + 1 := Iff.rfl
      unfold getBlockHash
      simp only
      rw [asked_eq, uncached]
      simp only [positive, ↓reduceIte]
      by_cases outside : tip.nHeight = 0 ∨ (tip.nHeight + 1 : Int) < asked
      · have unanswered : ¬ CChain.Answers (tip :: ancestors) asked := by
          rw [answers]
          omega
        rw [if_pos outside, if_neg unanswered]
      · rw [if_neg outside, readBack_linked _ linked _ 0 (by omega)]
        have here : CChain.height (tip :: ancestors) - ((tip.nHeight : Int) + 1 - asked - 0) =
            asked - 1 := by
          rw [CChain.height_cons]
          omega
        rw [here]
        by_cases first : 2 ≤ asked
        · have inside : 1 ≤ asked - 1 := by omega
          have answered : CChain.Answers (tip :: ancestors) asked := by
            rw [answers]
            omega
          rw [if_pos inside, if_pos answered]
          cases CChain.hashAt (tip :: ancestors) (asked - 1) <;> rfl
        · have before : ¬ 1 ≤ asked - 1 := by omega
          rw [if_neg before, if_neg fun answered => first (answers.mp answered).1]

theorem getBlockHash_other (other : Int) (elsewhere : other ≠ askedHeight chain nBlockHeight) :
    (getBlockHash cache chain nBlockHeight).2.lookup other = cache.lookup other := by
  cases chain with
  | nil => rfl
  | cons tip ancestors =>
      unfold getBlockHash
      simp only
      split
      next => rfl
      next =>
        split
        next => rfl
        next =>
          split
          next => rw [Assoc.lookup_insert, if_neg elsewhere]
          next => rfl

theorem getBlockHash_lookup (linked : chain.Linked) (key : Int) (positive : 0 < key) :
    (getBlockHash cache chain nBlockHeight).2.lookup key =
      match cache.lookup key with
      | some hash => some hash
      | none =>
          if askedHeight chain nBlockHeight = key ∧ chain.Answers key then chain.hashAt (key - 1)
          else none := by
  by_cases asked : askedHeight chain nBlockHeight = key
  · subst asked
    cases cached : cache.lookup (askedHeight chain nBlockHeight) with
    | some hash =>
        cases chain with
        | nil => exact cached
        | cons tip ancestors => simp [getBlockHash_cached _ _ _ hash (by simp) cached, cached]
    | none =>
        rw [getBlockHash_fresh cache chain nBlockHeight linked positive cached]
        by_cases answers : chain.Answers (askedHeight chain nBlockHeight)
        · simp only [answers, ↓reduceIte, and_self]
          split
          next hash found => simp [found]
          next missing => simp [missing, cached]
        · simp only [answers, ↓reduceIte, and_false, cached]
  · rw [getBlockHash_other cache chain nBlockHeight key (Ne.symm asked)]
    cases cache.lookup key with
    | some hash => rfl
    | none => simp [asked]

theorem getBlockHash_answer (linked : chain.Linked) (low : 1 ≤ nBlockHeight)
    (high : nBlockHeight ≤ chain.height + 1) :
    (getBlockHash cache chain nBlockHeight).1 =
      match cache.lookup nBlockHeight with
      | some hash => some hash
      | none => if 2 ≤ nBlockHeight then chain.hashAt (nBlockHeight - 1) else none := by
  have asked : askedHeight chain nBlockHeight = nBlockHeight := if_neg (by omega)
  cases cached : cache.lookup nBlockHeight with
  | some hash =>
      have nonEmpty : chain ≠ [] := by
        rintro rfl
        simp only [CChain.height] at high
        omega
      rw [getBlockHash_cached cache chain nBlockHeight hash nonEmpty (by rw [asked, cached])]
  | none =>
      have answers : chain.Answers nBlockHeight ↔ 2 ≤ nBlockHeight := and_iff_left high
      rw [getBlockHash_fresh cache chain nBlockHeight linked (by omega) (by rw [asked, cached]), asked]
      simp only [answers]
      split <;> rfl

theorem calculateScore_congr [ScoreHasher] (other : BlockHashCache) (prevout : COutPoint)
    (same : (getBlockHash cache chain nBlockHeight).1 = (getBlockHash other chain nBlockHeight).1) :
    calculateScore cache chain prevout nBlockHeight =
      calculateScore other chain prevout nBlockHeight := by
  rw [calculateScore, calculateScore, same]

end

inductive TipOp
  | connectTip (pindexNew : CBlockIndex)
  | disconnectTip
  | getBlockHash (nBlockHeight : Int)
  deriving DecidableEq, Repr

structure HashNode where
  chainActive : CChain
  mapCacheBlockHashes : BlockHashCache

namespace TipOp

def chain (chainActive : CChain) : TipOp → CChain
  | .connectTip pindexNew => { pindexNew with nHeight := chainActive.length } :: chainActive
  | .disconnectTip => chainActive.tail
  | .getBlockHash _ => chainActive

theorem chain_linked (chainActive : CChain) (op : TipOp) (linked : chainActive.Linked) :
    (op.chain chainActive).Linked := by
  cases op with
  | connectTip pindexNew => exact ⟨rfl, linked⟩
  | disconnectTip =>
      cases chainActive with
      | nil => exact linked
      | cons tip ancestors => exact linked.2
  | getBlockHash nBlockHeight => exact linked

def firstAsked : CChain → List TipOp → Int → Option CChain
  | _, [], _ => none
  | chainActive, op :: rest, key =>
      match op with
      | .getBlockHash nBlockHeight =>
          if askedHeight chainActive nBlockHeight = key ∧ chainActive.Answers key then
            some chainActive
          else firstAsked chainActive rest key
      | .connectTip _ => firstAsked (op.chain chainActive) rest key
      | .disconnectTip => firstAsked (op.chain chainActive) rest key

theorem firstAsked_answers (chainActive : CChain) (linked : chainActive.Linked) (ops : List TipOp)
    (key : Int) (asked : CChain) (found : firstAsked chainActive ops key = some asked) :
    asked.Linked ∧ asked.Answers key := by
  induction ops generalizing chainActive with
  | nil => cases found
  | cons op rest ih =>
      cases op with
      | connectTip pindexNew => exact ih _ (chain_linked _ (.connectTip pindexNew) linked) found
      | disconnectTip => exact ih _ (chain_linked _ .disconnectTip linked) found
      | getBlockHash nBlockHeight =>
          simp only [firstAsked] at found
          split at found
          next answered =>
            cases found
            exact ⟨linked, answered.2⟩
          next => exact ih chainActive linked found

end TipOp

namespace HashNode

def empty : HashNode := ⟨[], ∅⟩

def step (node : HashNode) (op : TipOp) : HashNode where
  chainActive := op.chain node.chainActive
  mapCacheBlockHashes :=
    match op with
    | .getBlockHash nBlockHeight =>
        (CryptoYen.getBlockHash node.mapCacheBlockHashes node.chainActive nBlockHeight).2
    | .connectTip _ => node.mapCacheBlockHashes
    | .disconnectTip => node.mapCacheBlockHashes

def run (node : HashNode) (ops : List TipOp) : HashNode := ops.foldl step node

theorem run_linked (node : HashNode) (ops : List TipOp) (linked : node.chainActive.Linked) :
    (node.run ops).chainActive.Linked := by
  induction ops generalizing node with
  | nil => exact linked
  | cons op rest ih => exact ih (node.step op) (op.chain_linked node.chainActive linked)

theorem run_cache (node : HashNode) (ops : List TipOp) (linked : node.chainActive.Linked)
    (key : Int) (positive : 0 < key) :
    (node.run ops).mapCacheBlockHashes.lookup key =
      match node.mapCacheBlockHashes.lookup key with
      | some hash => some hash
      | none => (TipOp.firstAsked node.chainActive ops key).bind fun chain => chain.hashAt (key - 1) := by
  induction ops generalizing node with
  | nil => cases cached : node.mapCacheBlockHashes.lookup key <;> simp [run, cached, TipOp.firstAsked]
  | cons op rest ih =>
      have later := ih (node.step op) (op.chain_linked node.chainActive linked)
      rw [run, List.foldl_cons]
      refine later.trans ?_
      cases op with
      | connectTip pindexNew => rfl
      | disconnectTip => rfl
      | getBlockHash nBlockHeight =>
          simp only [step, TipOp.chain, TipOp.firstAsked,
            getBlockHash_lookup _ _ nBlockHeight linked key positive]
          cases cached : node.mapCacheBlockHashes.lookup key with
          | some hash => rfl
          | none =>
              by_cases asked : askedHeight node.chainActive nBlockHeight = key ∧
                  node.chainActive.Answers key
              · have there := CChain.hashAt_isSome node.chainActive linked (key - 1)
                  (by have := asked.2.1; omega) (by have := asked.2.2; omega)
                obtain ⟨hash, found⟩ := Option.isSome_iff_exists.mp there
                simp [asked, found]
              · simp [asked]

def AnswersCurrent (node : HashNode) (nBlockHeight : Int) : Prop :=
  ∀ hash, (CryptoYen.getBlockHash node.mapCacheBlockHashes node.chainActive nBlockHeight).1 =
    some hash → node.chainActive.hashAt (nBlockHeight - 1) = some hash

def Unmoved (ops : List TipOp) (nBlockHeight : Int) : Prop :=
  ∀ asked, TipOp.firstAsked [] ops nBlockHeight = some asked →
    asked.hashAt (nBlockHeight - 1) = (empty.run ops).chainActive.hashAt (nBlockHeight - 1)

theorem answersCurrent_iff [ScoreHasher] (ops : List TipOp) (nBlockHeight : Int)
    (low : 1 ≤ nBlockHeight) (high : nBlockHeight ≤ (empty.run ops).chainActive.height + 1) :
    ((empty.run ops).AnswersCurrent nBlockHeight ↔ Unmoved ops nBlockHeight) ∧
      (Unmoved ops nBlockHeight → ∀ prevout,
        calculateScore (empty.run ops).mapCacheBlockHashes (empty.run ops).chainActive prevout
            nBlockHeight =
          calculateScore ∅ (empty.run ops).chainActive prevout nBlockHeight) := by
  have linked : (empty.run ops).chainActive.Linked := empty.run_linked ops trivial
  have cached := empty.run_cache ops trivial nBlockHeight (by omega)
  have answer := getBlockHash_answer (empty.run ops).mapCacheBlockHashes
    (empty.run ops).chainActive nBlockHeight linked low high
  have fresh := getBlockHash_answer ∅ (empty.run ops).chainActive nBlockHeight linked low high
  cases found : TipOp.firstAsked [] ops nBlockHeight with
  | none =>
      -- the height was never asked for: the chain answers
      have uncached : (empty.run ops).mapCacheBlockHashes.lookup nBlockHeight = none := by
        simpa [empty, found] using cached
      rw [uncached] at answer
      refine ⟨iff_of_true (fun hash reported => ?_) (fun asked some => ?_), fun _ prevout => ?_⟩
      · rw [answer] at reported
        simp only at reported
        split at reported
        next => exact reported
        next => cases reported
      · rw [found] at some
        cases some
      · exact calculateScore_congr _ _ _ ∅ prevout (answer.trans fresh.symm)
  | some asked =>
      obtain ⟨asked_linked, answers⟩ := TipOp.firstAsked_answers [] trivial ops _ asked found
      have there := asked.hashAt_isSome asked_linked (nBlockHeight - 1)
        (by have := answers.1; omega) (by have := answers.2; omega)
      obtain ⟨old, known⟩ := Option.isSome_iff_exists.mp there
      have kept : (empty.run ops).mapCacheBlockHashes.lookup nBlockHeight = some old := by
        simpa [empty, found, known] using cached
      rw [kept] at answer
      have unmoved : Unmoved ops nBlockHeight ↔
          (empty.run ops).chainActive.hashAt (nBlockHeight - 1) = some old := by
        simp only [Unmoved, found, Option.some.injEq, forall_eq', known, eq_comm]
      rw [unmoved]
      refine ⟨?_, fun same prevout => ?_⟩
      · simp only [AnswersCurrent, answer, Option.some.injEq, forall_eq']
      · refine calculateScore_congr _ _ _ ∅ prevout (answer.trans (fresh.trans ?_).symm)
        have low : 2 ≤ nBlockHeight := answers.1
        simp [low, same]

end HashNode

namespace Reorganized

def block (phashBlock : Uint256) : CBlockIndex := ⟨phashBlock, 0, 5, 1613150297, 0x1e0fffff, 0⟩

def ops : List TipOp :=
  [.connectTip (block 1), .connectTip (block 2), .getBlockHash 2, .disconnectTip,
    .connectTip (block 3)]

end Reorganized

open Reorganized in
theorem reorganized_stale : ¬ (HashNode.empty.run ops).AnswersCurrent 2 := by
  intro current
  exact absurd (current 2 (by decide +kernel)) (by decide +kernel)

open Reorganized in
theorem answersCurrent_reconnected :
    (HashNode.empty.run (ops ++ [.disconnectTip, .connectTip (block 2)])).AnswersCurrent 2 := by
  have hasher : ScoreHasher := ⟨id, fun hash _ => hash⟩
  refine (HashNode.answersCurrent_iff (ops ++ [.disconnectTip, .connectTip (block 2)]) 2
    (by decide) (by decide +kernel)).1.mpr fun asked found => ?_
  have first : TipOp.firstAsked [] (ops ++ [.disconnectTip, .connectTip (block 2)]) 2 =
      some [⟨2, 1, 5, 1613150297, 0x1e0fffff, 0⟩, ⟨1, 0, 5, 1613150297, 0x1e0fffff, 0⟩] := by
    decide +kernel
  rw [first] at found
  cases found
  decide +kernel

end CryptoYen
