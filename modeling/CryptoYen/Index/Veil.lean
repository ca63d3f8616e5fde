import CryptoYen.Index.Rounds

set_option autoImplicit false

namespace CryptoYen

/-- What is left out of sight: the undo data of some blocks, the failure marks of others. -/
structure Veil where
  lost : BlockPtr → Bool
  hidden : BlockPtr → Bool

def Veil.clear : Veil := ⟨fun _ => false, fun _ => false⟩

def Veil.status (veil : Veil) (p : BlockPtr) (status : BlockStatus) : BlockStatus where
  valid := status.valid
  haveData := status.haveData
  haveUndo := status.haveUndo && !veil.lost p
  failedValid := status.failedValid && !veil.hidden p
  failedChild := status.failedChild && !veil.hidden p

namespace BlockTree

def veiled (tree : BlockTree) (veil : Veil) : BlockTree :=
  { tree with
    entry := fun p =>
      { tree.entry p with nStatus := veil.status p (tree.entry p).nStatus } }

variable {tree next : BlockTree} {veil : Veil}

theorem veiled_clear (tree : BlockTree) : tree.veiled .clear = tree := by
  simp [veiled, Veil.status, Veil.clear]

theorem veiled_setStatus (tree : BlockTree) (veil : Veil) (p : BlockPtr) (status : BlockStatus) :
    (tree.setStatus p status).veiled veil = (tree.veiled veil).setStatus p (veil.status p status) := by
  have entries : ((tree.setStatus p status).veiled veil).entry =
      ((tree.veiled veil).setStatus p (veil.status p status)).entry := by
    funext q
    by_cases same : q = p
    · subst same
      simp [veiled, setStatus, setEntry]
    · simp [veiled, setStatus, setEntry, same]
  exact congrArg (fun entry => ({ tree with entry := entry } : BlockTree)) entries

structure Kept (veil : Veil) (tree next : BlockTree) : Prop extends Restatused tree next where
  failedValid : ∀ p, (tree.entry p).nStatus.failedValid = true →
    (next.entry p).nStatus.failedValid = true
  valid : ∀ p, (tree.entry p).nStatus.valid ≤ (next.entry p).nStatus.valid
  connected : ∀ p, tree.Connected p → next.Connected p
  lost : ∀ p, veil.lost p = true → (next.entry p).nStatus.haveUndo = true →
    (tree.entry p).nStatus.haveUndo = true
  rooted : (∀ p ∈ tree.chainActive.getLast?, tree.pprev p = none) →
    ∀ p ∈ next.chainActive.getLast?, next.pprev p = none

namespace Kept

theorem refl (veil : Veil) (tree : BlockTree) : Kept veil tree tree where
  toRestatused := Restatused.refl tree
  failedValid _ failed := failed
  valid _ := Nat.le_refl _
  connected _ here := here
  lost _ _ undo := undo
  rooted root := root

theorem trans {last : BlockTree} (first : Kept veil tree next) (second : Kept veil next last) :
    Kept veil tree last where
  toRestatused := first.toRestatused.trans second.toRestatused
  failedValid p failed := second.failedValid p (first.failedValid p failed)
  valid p := (first.valid p).trans (second.valid p)
  connected p here := second.connected p (first.connected p here)
  lost p lost undo := first.lost p lost (second.lost p lost undo)
  rooted root := second.rooted (first.rooted root)

theorem failed (kept : Kept veil tree next) (p : BlockPtr) (failed : tree.Failed p) :
    next.Failed p :=
  kept.toRestatused.failed kept.failedValid p failed

theorem candidates (kept : Kept veil tree next) (setBlockIndexCandidates : List BlockPtr) :
    Kept veil tree { next with setBlockIndexCandidates := setBlockIndexCandidates } where
  toRestatused := kept.toRestatused.activate next.chainActive setBlockIndexCandidates
  failedValid := kept.failedValid
  valid := kept.valid
  connected := kept.connected
  lost := kept.lost
  rooted := kept.rooted

theorem setStatus (p : BlockPtr) (status : BlockStatus) (linked : tree.linked p = true)
    (haveData : status.haveData = tree.haveData p)
    (valid : (tree.entry p).nStatus.valid ≤ status.valid)
    (failedValid : (tree.entry p).nStatus.failedValid = true → status.failedValid = true)
    (undo : (tree.entry p).nStatus.haveUndo = true → status.haveUndo = true)
    (spared : veil.lost p = true → status.haveUndo = true →
      (tree.entry p).nStatus.haveUndo = true) : Kept veil tree (tree.setStatus p status) := by
  have other (q : BlockPtr) (apart : q ≠ p) := setStatus_other tree p q status apart
  have self := setStatus_self tree p status
  refine ⟨setStatus_restatused tree p status linked haveData, fun q failed => ?_, fun q => ?_,
    fun q here => ?_, fun q lost undo => ?_, fun root q last => ?_⟩
  · by_cases same : q = p
    · subst same
      rw [self]
      exact failedValid failed
    · rw [other q same]
      exact failed
  · by_cases same : q = p
    · subst same
      rw [self]
      exact valid
    · rw [other q same]
  · refine ⟨here.1, here.2.imp_right fun before => ?_⟩
    by_cases same : q = p
    · subst same
      rw [self]
      exact undo before
    · rw [other q same]
      exact before
  · by_cases same : q = p
    · subst same
      rw [self] at undo
      exact spared lost undo
    · rw [other q same] at undo
      exact undo
  · have above : (tree.setStatus p status).pprev = tree.pprev :=
      (setStatus_restatused tree p status linked haveData).pprev
    rw [above]
    exact root q last

end Kept

section finding

theorem veiled_usable (p : BlockPtr) (seen : veil.hidden p = false) :
    (tree.veiled veil).usable p = tree.usable p := by
  simp [usable, veiled, Veil.status, BlockStatus.failed, seen, haveData]

theorem veiled_testPath (path : List BlockPtr) (seen : ∀ p ∈ path, veil.hidden p = false) :
    (tree.veiled veil).testPath path = tree.testPath path := by
  induction path with
  | nil => rfl
  | cons p rest ih =>
      rw [testPath, testPath, veiled_usable p (seen p List.mem_cons_self),
        ih fun q member => seen q (List.mem_cons_of_mem p member)]
      rfl

theorem veiled_dropDescendant (p : BlockPtr) (seen : veil.hidden p = false) :
    dropDescendant true (tree.veiled veil) p = (dropDescendant true tree p).veiled veil := by
  have status : veil.status p { (tree.entry p).nStatus with failedChild := true } =
      { veil.status p (tree.entry p).nStatus with failedChild := true } := by
    simp [Veil.status, seen]
  have marked := veiled_setStatus tree veil p { (tree.entry p).nStatus with failedChild := true }
  rw [status] at marked
  exact (congrArg (fun marked => eraseCandidate marked p) marked).symm

theorem dropDescendant_kept (p : BlockPtr) (linked : tree.linked p = true) :
    Kept veil tree (dropDescendant true tree p) :=
  (Kept.setStatus p { (tree.entry p).nStatus with failedChild := true } linked rfl le_rfl
    (fun failed => failed) (fun undo => undo) fun _ undo => undo).candidates _

theorem dropDescendants_veiled (members : List BlockPtr) (tree : BlockTree)
    (linked : ∀ p ∈ members, tree.linked p = true) (seen : ∀ p ∈ members, veil.hidden p = false) :
    members.foldl (dropDescendant true) (tree.veiled veil) =
        (members.foldl (dropDescendant true) tree).veiled veil ∧
      Kept veil tree (members.foldl (dropDescendant true) tree) := by
  induction members generalizing tree with
  | nil => exact ⟨rfl, Kept.refl veil _⟩
  | cons p rest ih =>
      rw [List.forall_mem_cons] at linked seen
      have first : Kept veil tree (dropDescendant true tree p) := dropDescendant_kept p linked.1
      obtain ⟨same, kept⟩ := ih (dropDescendant true tree p)
        (fun q member => by rw [first.linked]; exact linked.2 q member) seen.2
      rw [List.foldl_cons, List.foldl_cons, veiled_dropDescendant p seen.1]
      exact ⟨same, first.trans kept⟩

theorem dropChain_veiled (pindexNew pindexTest : BlockPtr)
    (onPath : pindexTest ∈ tree.ancestry pindexNew)
    (linked : ∀ p ∈ tree.ancestry pindexNew, tree.linked p = true)
    (seen : ∀ p ∈ tree.ancestry pindexNew, veil.hidden p = false)
    (failed : (tree.entry pindexTest).nStatus.failed = true) :
    (tree.veiled veil).dropChain pindexNew pindexTest =
        (tree.dropChain pindexNew pindexTest).veiled veil ∧
      Kept veil tree (tree.dropChain pindexNew pindexTest) := by
  have stillFailed : ((tree.veiled veil).entry pindexTest).nStatus.failed = true := by
    simpa [veiled, Veil.status, BlockStatus.failed, seen pindexTest onPath] using failed
  obtain ⟨same, kept⟩ := dropDescendants_veiled
    ((tree.ancestry pindexNew).takeWhile (· ≠ pindexTest)) tree
    (fun p member => linked p (List.takeWhile_subset _ member))
    fun p member => seen p (List.takeWhile_subset _ member)
  refine ⟨?_, ?_⟩
  · simp only [dropChain, stillFailed, failed]
    exact congrArg (fun dropped => eraseCandidate dropped pindexTest) same
  · simp only [dropChain, failed]
    exact kept.candidates _

theorem findMostWork_veiled (fuel : Nat) (tree found : BlockTree) (result : Option BlockPtr)
    (sound : (tree.veiled veil).Sound) (hides : ∀ p, veil.hidden p = true → tree.linked p = false)
    (searched : findMostWork fuel tree = some (found, result)) :
    findMostWork fuel (tree.veiled veil) = some (found.veiled veil, result) ∧
      Kept veil tree found := by
  induction fuel generalizing tree with
  | zero => cases searched
  | succ fuel ih =>
      unfold findMostWork at searched ⊢
      have mirrored : Ranking.last (tree.veiled veil).worse (tree.veiled veil).setBlockIndexCandidates =
          Ranking.last tree.worse tree.setBlockIndexCandidates := rfl
      cases last : Ranking.last tree.worse tree.setBlockIndexCandidates with
      | none =>
          simp only [mirrored, last] at searched ⊢
          cases searched
          exact ⟨rfl, Kept.refl veil _⟩
      | some pindexNew =>
          simp only [mirrored, last] at searched ⊢
          have candidate := sound.selection.candidates pindexNew (Ranking.last_mem _ _ last)
          have linked (p : BlockPtr) (member : p ∈ tree.ancestry pindexNew) : tree.linked p = true :=
            sound.linkage.linked_ancestor candidate.known candidate.linked
              (mem_ancestry pindexNew p member)
          have seen (p : BlockPtr) (member : p ∈ tree.ancestry pindexNew) :
              veil.hidden p = false := by
            by_contra hidden
            rw [Bool.not_eq_false] at hidden
            have unlinked := hides p hidden
            rw [linked p member] at unlinked
            cases unlinked
          have path : (tree.veiled veil).testPath ((tree.veiled veil).pathToActive pindexNew) =
              tree.testPath (tree.pathToActive pindexNew) :=
            veiled_testPath _ fun p member => seen p (List.takeWhile_subset _ member)
          rw [path]
          cases tested : tree.testPath (tree.pathToActive pindexNew) with
          | none => simp only [tested] at searched; cases searched
          | some stop =>
              cases stop with
              | none =>
                  simp only [tested] at searched ⊢
                  cases searched
                  exact ⟨rfl, Kept.refl veil _⟩
              | some pindexTest =>
                  simp only [tested] at searched ⊢
                  obtain ⟨member, unusable⟩ := testPath_stops _ pindexTest tested
                  have onPath : pindexTest ∈ tree.ancestry pindexNew := List.takeWhile_subset _ member
                  have viewed : (tree.veiled veil).usable pindexTest = false := by
                    rw [veiled_usable pindexTest (seen pindexTest onPath)]
                    exact unusable
                  have dropped := dropChain_searched sound candidate onPath viewed
                  have stored : tree.haveData pindexTest = true :=
                    (sound.linkage.linked pindexTest (sound.linkage.leveled.known_ancestor
                      candidate.known (mem_ancestry pindexNew pindexTest onPath))
                      (linked pindexTest onPath)).stored
                  have failed : (tree.entry pindexTest).nStatus.failed = true := by
                    simpa [usable, stored] using unusable
                  obtain ⟨same, kept⟩ := dropChain_veiled pindexNew pindexTest onPath linked seen failed
                  rw [same]
                  obtain ⟨commutes, rest⟩ := ih (tree.dropChain pindexNew pindexTest)
                    (same ▸ dropped.sound)
                    (fun p hidden => by rw [kept.linked]; exact hides p hidden) searched
                  exact ⟨commutes, kept.trans rest⟩

end finding

section shortening

theorem veiled_disconnectTips (pindexFork : Option BlockPtr) (disconnects : BlockPtr → Bool)
    (chain : List BlockPtr) (kept : ∀ p ∈ chain, veil.lost p = false) :
    (tree.veiled veil).disconnectTips pindexFork disconnects chain =
      tree.disconnectTips pindexFork disconnects chain := by
  induction chain with
  | nil => rfl
  | cons p rest ih =>
      rw [List.forall_mem_cons] at kept
      have undo : ((tree.veiled veil).entry p).nStatus.haveUndo = (tree.entry p).nStatus.haveUndo := by
        simp [veiled, Veil.status, kept.1]
      rw [disconnectTips, disconnectTips, undo, ih kept.2]

theorem shorten_kept {chain removed : List BlockPtr} (split : tree.chainActive = removed ++ chain)
    (undone : ∀ p ∈ removed, (tree.entry p).nStatus.haveUndo = true) :
    Kept veil tree { tree with chainActive := chain } where
  toRestatused := (Restatused.refl tree).activate chain tree.setBlockIndexCandidates
  failedValid _ failed := failed
  valid _ := Nat.le_refl _
  connected p here := by
    refine ⟨here.1, ?_⟩
    rcases here.2 with active | undo
    · rw [split] at active
      rcases List.mem_append.mp active with gone | stays
      · exact .inr (undone p gone)
      · exact .inl stays
    · exact .inr undo
  lost _ _ undo := undo
  rooted root p last := by
    refine root p ?_
    rw [split, List.getLast?_append]
    simp [Option.mem_def.mp last]

end shortening

section connecting

variable [BlockHasher] {params : CChainParams}

theorem veiled_connectTip (p : BlockPtr) (outcome : TipOutcome) (kept : veil.lost p = false)
    (seen : veil.hidden p = false) :
    (tree.veiled veil).connectTip params p outcome =
      (tree.connectTip params p outcome).map fun next => next.veiled veil := by
  have same (status : BlockStatus) : veil.status p status = status := by
    simp [Veil.status, kept, seen]
  have entry : (tree.veiled veil).entry p = tree.entry p := by simp [veiled, same]
  unfold connectTip
  by_cases onTip : tree.pprev p ≠ tree.tip
  · rw [if_pos onTip, if_pos (show (tree.veiled veil).pprev p ≠ (tree.veiled veil).tip from onTip)]
    rfl
  · rw [if_neg onTip,
      if_neg (show ¬ (tree.veiled veil).pprev p ≠ (tree.veiled veil).tip from onTip)]
    cases outcome with
    | success =>
        have marked := veiled_setStatus tree veil p (connectedStatus params (tree.entry p))
        rw [same] at marked
        simp only [Option.map_some, entry]
        exact congrArg (fun marked : BlockTree =>
          some { marked with chainActive := p :: tree.chainActive }) marked.symm
    | invalid corruptionPossible =>
        simp only [invalidBlockFound, entry]
        cases corruptionPossible with
        | true => rfl
        | false =>
            have marked := veiled_setStatus tree veil p
              { (tree.entry p).nStatus with failedValid := true }
            rw [same] at marked
            by_cases empty : tree.chainActive.isEmpty = true
            · simp [veiled, empty]
            · rw [if_neg Bool.false_ne_true, if_neg Bool.false_ne_true, if_neg empty,
                if_neg (show ¬ (tree.veiled veil).chainActive.isEmpty = true from empty)]
              exact congrArg (fun marked => some (eraseCandidate marked p)) marked.symm
    | systemError => rfl

theorem connectTip_kept (p : BlockPtr) (outcome : TipOutcome) (linked : tree.linked p = true)
    (spared : veil.lost p = false) (done : tree.connectTip params p outcome = some next) :
    Kept veil tree next := by
  unfold connectTip at done
  split at done
  next => cases done
  next onTip =>
    rw [not_not] at onTip
    cases outcome with
    | success =>
        cases done
        have valid : (tree.entry p).nStatus.valid ≤
            (connectedStatus params (tree.entry p)).valid := by
          unfold connectedStatus
          split
          · exact Nat.le_refl _
          · exact BlockStatus.le_raiseValidity
              { (tree.entry p).nStatus with haveUndo := true } BLOCK_VALID_SCRIPTS
        have marked : Kept veil tree (tree.setStatus p (connectedStatus params (tree.entry p))) :=
          Kept.setStatus p _ linked (connectedStatus_haveData params _) valid
            (fun failed => (connectedStatus_failedValid params _).trans failed)
            (connectedStatus_haveUndo params _) fun lost => by rw [spared] at lost; cases lost
        refine ⟨marked.toRestatused.activate _ _, marked.failedValid, marked.valid, ?_, marked.lost, ?_⟩
        · intro q here
          obtain ⟨known, active | undo⟩ := marked.connected q here
          · exact ⟨known, .inl (List.mem_cons_of_mem p active)⟩
          · exact ⟨known, .inr undo⟩
        · intro root q last
          have above := (marked.toRestatused.activate (p :: tree.chainActive)
            tree.setBlockIndexCandidates).pprev
          refine (congrFun above q).trans ?_
          change q ∈ (p :: tree.chainActive).getLast? at last
          cases chain : tree.chainActive with
          | nil =>
              rw [tip, chain] at onTip
              simp only [chain, List.getLast?_singleton, Option.mem_def, Option.some.injEq] at last
              rw [← last, onTip]
              rfl
          | cons t rest =>
              rw [chain, List.getLast?_cons_cons] at last
              exact root q (by rw [chain]; exact last)
    | invalid corruptionPossible =>
        simp only [invalidBlockFound] at done
        cases corruptionPossible with
        | true =>
            cases done
            exact Kept.refl veil _
        | false =>
            simp only [Bool.false_eq_true, ↓reduceIte] at done
            split at done
            next => cases done
            next =>
              cases done
              exact (Kept.setStatus p { (tree.entry p).nStatus with failedValid := true } linked rfl
                le_rfl (fun _ => rfl) (fun undo => undo) fun _ undo => undo).candidates _
    | systemError =>
        cases done
        exact Kept.refl veil _

omit [BlockHasher] in
theorem veiled_prune :
    (tree.veiled veil).pruneBlockIndexCandidates =
      tree.pruneBlockIndexCandidates.map fun next => next.veiled veil := by
  have kept : (tree.veiled veil).setBlockIndexCandidates.filter
      (fun p => !(tree.veiled veil).worseThanTip p) =
      tree.setBlockIndexCandidates.filter fun p => !tree.worseThanTip p := rfl
  unfold pruneBlockIndexCandidates
  simp only [kept]
  split <;> rfl

def InSight (veil : Veil) (tree : BlockTree) (onPath : BlockPtr → Prop) : Prop :=
  ∀ p, onPath p → tree.linked p = true ∧ veil.lost p = false ∧ veil.hidden p = false

variable {onPath : BlockPtr → Prop}

omit [BlockHasher] in
theorem InSight.kept (sight : InSight veil tree onPath) (kept : Kept veil tree next) :
    InSight veil next onPath := fun p here => by
  rw [kept.linked]
  exact sight p here

theorem connectBlocks_veiled (pindexOldTip : Option BlockPtr) (connects : BlockPtr → TipOutcome)
    (blocks : List BlockPtr) (progress : Progress) (onward : ∀ p ∈ blocks, onPath p)
    (tree : BlockTree) (sight : InSight veil tree onPath)
    (ran : connectBlocks params pindexOldTip connects tree blocks = some (next, progress)) :
    connectBlocks params pindexOldTip connects (tree.veiled veil) blocks =
        some (next.veiled veil, progress) ∧
      Kept veil tree next := by
  induction blocks generalizing tree with
  | nil =>
      cases ran
      exact ⟨rfl, Kept.refl veil _⟩
  | cons p rest ih =>
      rw [List.forall_mem_cons] at onward
      obtain ⟨linked, spared, seen⟩ := sight p onward.1
      unfold connectBlocks at ran ⊢
      rw [veiled_connectTip p (connects p) spared seen]
      cases done : tree.connectTip params p (connects p) with
      | none => simp only [done] at ran; cases ran
      | some after =>
          simp only [done, Option.map_some] at ran ⊢
          have first := connectTip_kept p (connects p) linked spared done
          cases verdict : connects p with
          | success =>
              simp only [verdict] at ran ⊢
              rw [veiled_prune]
              cases pruning : after.pruneBlockIndexCandidates with
              | none => simp only [pruning] at ran; cases ran
              | some pruned =>
                  simp only [pruning, Option.map_some] at ran ⊢
                  have same := prune_some pruned pruning
                  have second : Kept veil tree pruned := by
                    rw [same]
                    exact first.candidates _
                  have improves : (pruned.veiled veil).improves pindexOldTip =
                      pruned.improves pindexOldTip := rfl
                  rw [improves]
                  cases better : pruned.improves pindexOldTip with
                  | true =>
                      simp only [better, if_true] at ran ⊢
                      cases ran
                      exact ⟨rfl, second⟩
                  | false =>
                      simp only [better, Bool.false_eq_true, if_false] at ran ⊢
                      obtain ⟨commutes, kept⟩ := ih onward.2 pruned (sight.kept second) ran
                      exact ⟨commutes, second.trans kept⟩
          | invalid corruptionPossible =>
              simp only [verdict] at ran ⊢
              cases ran
              exact ⟨rfl, first⟩
          | systemError =>
              simp only [verdict] at ran ⊢
              cases ran
              exact ⟨rfl, first⟩

theorem connectBatches_veiled (pindexOldTip : Option BlockPtr) (connects : BlockPtr → TipOutcome)
    (pindexMostWork : BlockPtr) (fuel : Nat) (nHeight : Int) (ok : Bool) (tree : BlockTree)
    (sight : InSight veil tree fun p => tree.AncestorOrSelf p pindexMostWork)
    (ran : connectBatches params pindexOldTip connects pindexMostWork fuel nHeight tree =
      some (next, ok)) :
    connectBatches params pindexOldTip connects pindexMostWork fuel nHeight (tree.veiled veil) =
        some (next.veiled veil, ok) ∧
      Kept veil tree next := by
  induction fuel generalizing tree nHeight with
  | zero => cases ran
  | succ fuel ih =>
      unfold connectBatches at ran ⊢
      change (if nHeight = tree.height pindexMostWork then _ else _) = _ ∧ _
      by_cases there : nHeight = tree.height pindexMostWork
      · rw [if_pos there] at ran ⊢
        cases ran
        exact ⟨rfl, Kept.refl veil _⟩
      · rw [if_neg there] at ran ⊢
        simp only at ran ⊢
        have batch (after : BlockTree) (progress : Progress)
            (connected : connectBlocks params pindexOldTip connects tree
              (tree.blocksToConnect pindexMostWork nHeight
                (min (nHeight + 32) (tree.height pindexMostWork))) = some (after, progress)) :
            connectBlocks params pindexOldTip connects (tree.veiled veil)
                ((tree.veiled veil).blocksToConnect pindexMostWork nHeight
                  (min (nHeight + 32) ((tree.veiled veil).height pindexMostWork))) =
                some (after.veiled veil, progress) ∧ Kept veil tree after :=
          connectBlocks_veiled pindexOldTip connects _ progress
            (fun p member => blocksToConnect_onPath pindexMostWork nHeight _ p member) tree sight
            connected
        split at ran
        next => cases ran
        next after connected =>
          obtain ⟨commutes, first⟩ := batch after .onward connected
          rw [commutes]
          have onward : InSight veil after fun p => after.AncestorOrSelf p pindexMostWork := by
            intro p ancestor
            exact sight.kept first p ((first.ancestorOrSelf p pindexMostWork).mp ancestor)
          obtain ⟨rest, second⟩ := ih _ after onward ran
          exact ⟨rest, first.trans second⟩
        next after connected =>
          cases ran
          obtain ⟨commutes, first⟩ := batch next .stopped connected
          rw [commutes]
          exact ⟨rfl, first⟩
        next after connected =>
          cases ran
          obtain ⟨commutes, first⟩ := batch next .failed connected
          rw [commutes]
          exact ⟨rfl, first⟩

theorem activateBestChainStep_veiled (pindexMostWork : BlockPtr) (verdicts : Verdicts) (ok : Bool)
    (sight : InSight veil tree fun p => tree.AncestorOrSelf p pindexMostWork)
    (active : ∀ p ∈ tree.chainActive, veil.lost p = false)
    (ran : tree.activateBestChainStep params pindexMostWork verdicts = some (next, ok)) :
    (tree.veiled veil).activateBestChainStep params pindexMostWork verdicts =
        some (next.veiled veil, ok) ∧
      Kept veil tree next := by
  obtain ⟨removed, split, undone⟩ := tree.disconnectTips_spec (tree.findFork pindexMostWork)
    verdicts.disconnects tree.chainActive
  have tips : (tree.veiled veil).disconnectTips ((tree.veiled veil).findFork pindexMostWork)
      verdicts.disconnects (tree.veiled veil).chainActive =
        tree.disconnectTips (tree.findFork pindexMostWork) verdicts.disconnects tree.chainActive :=
    veiled_disconnectTips _ _ tree.chainActive active
  unfold activateBestChainStep at ran ⊢
  simp only at ran ⊢
  rw [tips]
  generalize tree.disconnectTips _ _ _ = disconnected at ran split
  obtain ⟨chain, done⟩ := disconnected
  have first : Kept veil tree { tree with chainActive := chain } := shorten_kept split undone
  cases done with
  | false =>
      cases ran
      exact ⟨rfl, first⟩
  | true =>
      obtain ⟨commutes, second⟩ := connectBatches_veiled tree.tip verdicts.connects pindexMostWork
        _ _ ok { tree with chainActive := chain } (sight.kept first) ran
      exact ⟨commutes, first.trans second⟩

theorem activateBestChainRound_veiled (sound : (tree.veiled veil).Sound)
    (hides : ∀ p, veil.hidden p = true → tree.linked p = false)
    (loses : ∀ p, veil.lost p = true → (tree.veiled veil).Failed p)
    (verdicts : Verdicts) (ended : RoundEnd)
    (ran : tree.activateBestChainRound params verdicts = some (next, ended)) :
    (tree.veiled veil).activateBestChainRound params verdicts = some (next.veiled veil, ended) ∧
      Kept veil tree next := by
  unfold activateBestChainRound at ran ⊢
  cases searched : tree.findMostWorkChain with
  | none => simp only [searched] at ran; cases ran
  | some result =>
      obtain ⟨found, best⟩ := result
      have mirrored := findMostWork_veiled _ tree found best sound hides searched
      obtain ⟨search, first⟩ := mirrored
      have searched' : (tree.veiled veil).findMostWorkChain = some (found.veiled veil, best) := search
      obtain ⟨spec, last, valid⟩ := findMostWork_spec _ _ _ best sound search
      simp only [searched, searched'] at ran ⊢
      cases best with
      | none =>
          cases ran
          exact ⟨rfl, first⟩
      | some pindexMostWork =>
          simp only at ran ⊢
          change (if found.tip = some pindexMostWork then _ else _) = _ ∧ _
          by_cases atTip : found.tip = some pindexMostWork
          · rw [if_pos atTip] at ran ⊢
            cases ran
            exact ⟨rfl, first⟩
          · rw [if_neg atTip] at ran ⊢
            have linkage := spec.sound.linkage
            have candidate := spec.sound.selection.candidates pindexMostWork
              (Ranking.last_mem _ _ last)
            have spared (p : BlockPtr) (healthy : ¬ (found.veiled veil).Failed p) :
                veil.lost p = false := by
              by_contra lost
              rw [Bool.not_eq_false] at lost
              exact healthy (spec.failed p (loses p lost))
            have sight : InSight veil found fun p => found.AncestorOrSelf p pindexMostWork := by
              intro p ancestor
              have linked := linkage.linked_ancestor candidate.known candidate.linked ancestor
              refine ⟨linked, spared p fun failed => ?_, ?_⟩
              · exact valid pindexMostWork rfl (failed.descends ancestor)
              · by_contra hidden
                rw [Bool.not_eq_false] at hidden
                have unlinked := hides p hidden
                rw [← first.linked] at unlinked
                rw [show found.linked p = true from linked] at unlinked
                cases unlinked
            have active (p : BlockPtr) (member : p ∈ found.chainActive) : veil.lost p = false := by
              have here : (found.veiled veil).Connected p :=
                ⟨spec.sound.selection.activeKnown p member, .inl member⟩
              exact spared p (here.not_failed spec.sound.selection.connected)
            cases stepped : found.activateBestChainStep params pindexMostWork verdicts with
            | none => simp only [stepped] at ran; cases ran
            | some result =>
                obtain ⟨after, ok⟩ := result
                obtain ⟨commutes, second⟩ := activateBestChainStep_veiled pindexMostWork
                  verdicts ok sight active stepped
                simp only [stepped, commutes] at ran ⊢
                cases ok with
                | false =>
                    cases ran
                    exact ⟨rfl, first.trans second⟩
                | true =>
                    simp only at ran ⊢
                    change (if after.tip = some pindexMostWork then _ else _) = _ ∧ _
                    by_cases there : after.tip = some pindexMostWork
                    · rw [if_pos there] at ran ⊢
                      cases ran
                      exact ⟨rfl, first.trans second⟩
                    · rw [if_neg there] at ran ⊢
                      cases ran
                      exact ⟨rfl, first.trans second⟩

end connecting

end BlockTree

end CryptoYen
