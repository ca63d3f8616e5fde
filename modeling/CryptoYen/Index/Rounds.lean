import CryptoYen.Index.Advance

set_option autoImplicit false

namespace CryptoYen

namespace BlockTree

variable [BlockHasher] {params : CChainParams} {tree next : BlockTree}

/-- ConnectTip never finds a block invalid whose undo data shows that it was connected before. -/
def Reconnects (tree : BlockTree) (connects : BlockPtr → TipOutcome) : Prop :=
  ∀ p, (tree.entry p).nStatus.haveUndo = true → connects p ≠ .invalid false

structure Advanced (tree next : BlockTree) (connects : BlockPtr → TipOutcome)
    (onPath : BlockPtr → Prop) : Prop where
  sound : next.Sound
  restatused : Restatused tree next
  connected : ∀ q, next.Connected q → tree.Connected q ∨ onPath q
  reconnects : next.Reconnects connects

section connecting

variable {connects : BlockPtr → TipOutcome} {onPath : BlockPtr → Prop}

omit [BlockHasher] in
theorem Advanced.refl (sound : tree.Sound) (reconnects : tree.Reconnects connects) :
    Advanced tree tree connects onPath :=
  ⟨sound, Restatused.refl tree, fun _ here => Or.inl here, reconnects⟩

omit [BlockHasher] in
theorem Advanced.trans {last : BlockTree} (first : Advanced tree next connects onPath)
    (second : Advanced next last connects onPath) : Advanced tree last connects onPath where
  sound := second.sound
  restatused := first.restatused.trans second.restatused
  connected q here := (second.connected q here).elim (first.connected q) Or.inr
  reconnects := second.reconnects

def Open (tree : BlockTree) (onPath : BlockPtr → Prop) : Prop :=
  ∀ p, onPath p → p ∈ tree.mapBlockIndex ∧ tree.linked p = true ∧ ¬ tree.Failed p

theorem connected_advanced (params : CChainParams) (sound : tree.Sound)
    (reconnects : tree.Reconnects connects)
    (opened : tree.Open onPath) (p : BlockPtr) (here : onPath p)
    (success : connects p = .success) (onTip : tree.pprev p = tree.tip) :
    Advanced tree (connected params tree p).pruned connects onPath ∧
      (connected params tree p).pruned.Open onPath := by
  obtain ⟨known, linked, valid⟩ := opened p here
  have moves : Moves tree (connected params tree p).pruned :=
    connect_moves sound p known linked valid onTip
  have restatused := moves.toRestatused
  refine ⟨⟨moves.sound sound, restatused, ?_, ?_⟩, ?_⟩
  · intro q connected
    rcases (connected_iff params tree p known q).mp connected with before | rfl
    · exact Or.inl before
    · exact Or.inr here
  · intro q undo
    by_cases same : q = p
    · rw [same, success]
      exact TipOutcome.noConfusion
    · rw [connected_other params tree p q same] at undo
      exact reconnects q undo
  · intro q onward
    obtain ⟨inside, linkedQ, validQ⟩ := opened q onward
    refine ⟨inside, ?_, ?_⟩
    · rw [restatused.linked]
      exact linkedQ
    · rintro ⟨a, ancestor, failed⟩
      rw [connected_failedValid] at failed
      exact validQ ⟨a, (restatused.ancestorOrSelf a q).mp ancestor, failed⟩

omit [BlockHasher] in
theorem not_active_of_child (sound : tree.Sound) (p : BlockPtr) (known : p ∈ tree.mapBlockIndex)
    (onTip : tree.pprev p = tree.tip) : p ∉ tree.chainActive := by
  intro member
  cases tip : tree.tip with
  | none =>
      rw [List.head?_eq_none_iff.mp tip] at member
      cases member
  | some t =>
      rw [tip] at onTip
      have older := active_descends sound.selection.path t tip p member
      obtain ⟨inside, level⟩ := sound.linkage.leveled p known t onTip
      have below := sound.linkage.leveled.height_le inside older
      omega

omit [BlockHasher] in
theorem invalidBlockFound_advanced (sound : tree.Sound) (reconnects : tree.Reconnects connects)
    (opened : tree.Open onPath) (p : BlockPtr) (here : onPath p) (corruptionPossible : Bool)
    (invalid : connects p = .invalid corruptionPossible) (onTip : tree.pprev p = tree.tip)
    (marked : tree.invalidBlockFound p corruptionPossible = some next) :
    Advanced tree next connects onPath := by
  obtain ⟨known, linked, _⟩ := opened p here
  unfold invalidBlockFound at marked
  cases corruptionPossible with
  | true =>
      cases marked
      exact Advanced.refl sound reconnects
  | false =>
      simp only [Bool.false_eq_true, ↓reduceIte] at marked
      split at marked
      next => cases marked
      next =>
        cases marked
        have never : ¬ tree.Connected p := by
          rintro ⟨_, active | undo⟩
          · exact not_active_of_child sound p known onTip active
          · exact reconnects p undo invalid
        have moves := markInvalid_moves sound linked never
        have undone (q : BlockPtr) :
            (((tree.setStatus p { (tree.entry p).nStatus with failedValid := true }).eraseCandidate
              p).entry q).nStatus.haveUndo = (tree.entry q).nStatus.haveUndo := by
          show ((tree.setStatus p _).entry q).nStatus.haveUndo = _
          by_cases same : q = p
          · rw [same, setStatus_self]
          · rw [setStatus_other tree p q _ same]
        refine ⟨moves.sound sound, moves.toRestatused, ?_, ?_⟩
        · rintro q ⟨inside, active | undo⟩
          · exact Or.inl ⟨inside, Or.inl active⟩
          · rw [undone] at undo
            exact Or.inl ⟨inside, Or.inr undo⟩
        · intro q undo
          rw [undone] at undo
          exact reconnects q undo

theorem connectTip_success (p : BlockPtr)
    (done : tree.connectTip params p .success = some next) :
    tree.pprev p = tree.tip ∧ next = connected params tree p := by
  unfold connectTip at done
  split at done
  next => cases done
  next onTip =>
    cases done
    exact ⟨not_not.mp onTip, rfl⟩

theorem connectTip_invalid (p : BlockPtr) (corruptionPossible : Bool)
    (done : tree.connectTip params p (.invalid corruptionPossible) = some next) :
    tree.pprev p = tree.tip ∧ tree.invalidBlockFound p corruptionPossible = some next := by
  unfold connectTip at done
  split at done
  next => cases done
  next onTip => exact ⟨not_not.mp onTip, done⟩

theorem connectTip_systemError (p : BlockPtr)
    (done : tree.connectTip params p .systemError = some next) : next = tree := by
  unfold connectTip at done
  split at done
  next => cases done
  next =>
    cases done
    rfl

theorem connectBlocks_advanced (pindexOldTip : Option BlockPtr) (blocks : List BlockPtr)
    (progress : Progress) (onward : ∀ p ∈ blocks, onPath p) (tree : BlockTree)
    (sound : tree.Sound) (reconnects : tree.Reconnects connects) (opened : tree.Open onPath)
    (ran : connectBlocks params pindexOldTip connects tree blocks = some (next, progress)) :
    Advanced tree next connects onPath ∧ (progress = .onward → next.Open onPath) := by
  induction blocks generalizing tree with
  | nil =>
      cases ran
      exact ⟨Advanced.refl sound reconnects, fun _ => opened⟩
  | cons p rest ih =>
      have here := onward p List.mem_cons_self
      unfold connectBlocks at ran
      split at ran
      next => cases ran
      next after done =>
        cases verdict : connects p with
        | success =>
            rw [verdict] at done
            simp only [verdict] at ran
            obtain ⟨onTip, rfl⟩ := connectTip_success p done
            split at ran
            next => cases ran
            next pruned done =>
              have same := prune_some pruned done
              subst same
              obtain ⟨first, open'⟩ := connected_advanced params sound reconnects opened p here
                verdict onTip
              split at ran
              next =>
                cases ran
                exact ⟨first, fun _ => open'⟩
              next =>
                obtain ⟨second, opened⟩ := ih
                  (fun q member => onward q (List.mem_cons_of_mem p member)) _ first.sound
                  first.reconnects open' ran
                exact ⟨first.trans second, opened⟩
        | invalid corruptionPossible =>
            rw [verdict] at done
            simp only [verdict] at ran
            cases ran
            obtain ⟨onTip, marked⟩ := connectTip_invalid p corruptionPossible done
            exact ⟨invalidBlockFound_advanced sound reconnects opened p here _ verdict onTip marked,
              fun isOnward => by cases isOnward⟩
        | systemError =>
            rw [verdict] at done
            simp only [verdict] at ran
            cases ran
            rw [connectTip_systemError p done]
            exact ⟨Advanced.refl sound reconnects, fun isOnward => by cases isOnward⟩

omit [BlockHasher] in
theorem blocksToConnect_onPath (pindexMostWork : BlockPtr) (nHeight nTargetHeight : Int)
    (p : BlockPtr) (member : p ∈ tree.blocksToConnect pindexMostWork nHeight nTargetHeight) :
    tree.AncestorOrSelf p pindexMostWork := by
  unfold blocksToConnect at member
  split at member
  next => cases member
  next pindexIter found =>
    rw [List.mem_reverse] at member
    have below := mem_ancestry pindexIter p (List.takeWhile_subset _ member)
    have iter := mem_ancestry pindexMostWork pindexIter (List.mem_of_find?_eq_some found)
    exact below.trans iter

theorem connectBatches_advanced (pindexOldTip : Option BlockPtr) (pindexMostWork : BlockPtr)
    (fuel : Nat) (nHeight : Int) (ok : Bool) (tree : BlockTree)
    (towards : ∀ p, tree.AncestorOrSelf p pindexMostWork → onPath p) (sound : tree.Sound)
    (reconnects : tree.Reconnects connects) (opened : tree.Open onPath)
    (ran : connectBatches params pindexOldTip connects pindexMostWork fuel nHeight tree =
      some (next, ok)) : Advanced tree next connects onPath := by
  induction fuel generalizing tree nHeight with
  | zero => cases ran
  | succ fuel ih =>
      unfold connectBatches at ran
      split at ran
      next =>
        cases ran
        exact Advanced.refl sound reconnects
      next =>
        simp only at ran
        have batch (after : BlockTree) (progress : Progress)
            (connected : connectBlocks params pindexOldTip connects tree
              (tree.blocksToConnect pindexMostWork nHeight
                (min (nHeight + 32) (tree.height pindexMostWork))) = some (after, progress)) :=
          connectBlocks_advanced pindexOldTip _ progress
            (fun p member => towards p (blocksToConnect_onPath pindexMostWork nHeight _ p member))
            tree sound reconnects opened connected
        split at ran
        next => cases ran
        next after connected =>
          obtain ⟨first, open'⟩ := batch after .onward connected
          have second := ih _ after
            (fun p ancestor => towards p ((first.restatused.ancestorOrSelf p _).mp ancestor))
            first.sound first.reconnects (open' rfl) ran
          exact first.trans second
        next after connected =>
          cases ran
          exact (batch next .stopped connected).1
        next after connected =>
          cases ran
          exact (batch next .failed connected).1

end connecting

theorem activateBestChainStep_advanced (sound : tree.Sound) (pindexMostWork : BlockPtr)
    (candidate : tree.Candidate pindexMostWork) (valid : ¬ tree.Failed pindexMostWork)
    (verdicts : Verdicts) (reconnects : tree.Reconnects verdicts.connects) (ok : Bool)
    (ran : tree.activateBestChainStep params pindexMostWork verdicts = some (next, ok)) :
    Advanced tree next verdicts.connects fun p => tree.AncestorOrSelf p pindexMostWork := by
  obtain ⟨removed, split, undone⟩ := tree.disconnectTips_spec (tree.findFork pindexMostWork)
    verdicts.disconnects tree.chainActive
  unfold activateBestChainStep at ran
  simp only at ran
  generalize tree.disconnectTips _ _ _ = disconnected at ran split
  obtain ⟨chain, done⟩ := disconnected
  have moves := disconnect_moves sound split undone
  have first : Advanced tree { tree with chainActive := chain } verdicts.connects
      fun p => tree.AncestorOrSelf p pindexMostWork :=
    ⟨moves.sound sound, moves.toRestatused,
      fun q here => Or.inl (disconnect_connected split q here), reconnects⟩
  cases done with
  | false =>
      cases ran
      exact first
  | true =>
      have opened : Open { tree with chainActive := chain }
          fun p => tree.AncestorOrSelf p pindexMostWork := by
        intro p ancestor
        refine ⟨sound.linkage.leveled.known_ancestor candidate.known ancestor,
          sound.linkage.linked_ancestor candidate.known candidate.linked ancestor, ?_⟩
        exact fun failed => valid (Failed.descends failed ancestor)
      exact first.trans (connectBatches_advanced _ pindexMostWork _ _ ok _ (fun p here => here)
        first.sound first.reconnects opened ran)

omit [BlockHasher] in
theorem checked_empty (sound : tree.Sound)
    (last : Ranking.last tree.worse tree.setBlockIndexCandidates = none) : tree.Checked := by
  have nobody (p : BlockPtr) : ¬ tree.Connected p := by
    intro here
    obtain ⟨best, candidate, _⟩ := sound.best_connected ⟨p, here⟩
    rw [Ranking.last_none _ last] at candidate
    cases candidate
  apply sound.checked
  · intro tip isTip
    have member := List.mem_of_mem_head? isTip
    exact absurd ⟨sound.selection.activeKnown tip member, Or.inl member⟩ (nobody tip)
  · exact fun _ => nobody

omit [BlockHasher] in
theorem checked_atTip (sound : tree.Sound) (p : BlockPtr) (atTip : tree.tip = some p)
    (unbeaten : tree.Unbeaten p) : tree.Checked := by
  apply sound.checked
  · intro tip isTip
    rw [atTip] at isTip
    cases isTip
    exact unbeaten
  · intro noTip
    rw [atTip] at noTip
    cases noTip

omit [BlockHasher] in
theorem unbeaten_advanced (sound : tree.Sound) (pindexMostWork : BlockPtr)
    (last : Ranking.last tree.worse tree.setBlockIndexCandidates = some pindexMostWork)
    (valid : ¬ tree.Failed pindexMostWork) (connects : BlockPtr → TipOutcome)
    (advanced : Advanced tree next connects fun p => tree.AncestorOrSelf p pindexMostWork) :
    next.Unbeaten pindexMostWork := by
  intro other connected
  rw [advanced.restatused.worse]
  rcases advanced.connected other connected with before | onPath
  · exact sound.unbeaten_of_last last other before
  · exact sound.last_over_ancestors last valid onPath

theorem activateBestChainRound_spec (sound : tree.Sound) (verdicts : Verdicts)
    (reconnects : tree.Reconnects verdicts.connects) (ended : RoundEnd)
    (ran : tree.activateBestChainRound params verdicts = some (next, ended)) :
    next.Sound ∧ (ended = .returned true → next.Checked) := by
  unfold activateBestChainRound at ran
  split at ran
  next => cases ran
  next found searched =>
    cases ran
    obtain ⟨search, last, _⟩ := findMostWork_spec _ tree next none sound searched
    exact ⟨search.sound, fun _ => checked_empty search.sound last⟩
  next found pindexMostWork searched =>
    obtain ⟨search, last, valid⟩ := findMostWork_spec _ tree found _ sound searched
    have candidate := search.sound.selection.candidates pindexMostWork
      (Ranking.last_mem _ _ last)
    have still : found.Reconnects verdicts.connects := by
      intro p undo
      rw [search.haveUndo] at undo
      exact reconnects p undo
    split at ran
    next atTip =>
      cases ran
      have unbeaten := search.sound.unbeaten_of_last last
      exact ⟨search.sound, fun _ => checked_atTip search.sound pindexMostWork atTip unbeaten⟩
    next =>
      have step (after : BlockTree) (ok : Bool)
          (stepped : found.activateBestChainStep params pindexMostWork verdicts =
            some (after, ok)) :=
        activateBestChainStep_advanced search.sound pindexMostWork candidate
          (valid pindexMostWork rfl) verdicts still ok stepped
      split at ran
      next => cases ran
      next after stepped =>
        cases ran
        exact ⟨(step next false stepped).sound, fun ended => by cases ended⟩
      next after stepped =>
        have advanced := step after true stepped
        split at ran
        next atTip =>
          cases ran
          have unbeaten := unbeaten_advanced search.sound pindexMostWork last
            (valid pindexMostWork rfl) verdicts.connects advanced
          exact ⟨advanced.sound,
            fun _ => checked_atTip advanced.sound pindexMostWork atTip unbeaten⟩
        next =>
          cases ran
          exact ⟨advanced.sound, fun ended => by cases ended⟩

end BlockTree

end CryptoYen
