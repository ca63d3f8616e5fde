import CryptoYen.Index.Ancestor
import CryptoYen.Index.MostWork

set_option autoImplicit false

namespace CryptoYen

def BLOCK_VALID_CHAIN : Nat := 4

namespace BlockTree

section checking

variable (tree : BlockTree)

def ValidUpTo (level : Nat) (p : BlockPtr) : Prop :=
  ∀ a, tree.AncestorOrSelf a p → tree.pprev a ≠ none → level ≤ (tree.entry a).nStatus.valid

structure EntryChecked (p : BlockPtr) : Prop where
  genesis : tree.pprev p = none → tree.chainActive.getLast? = some p
  stored : tree.haveData p = true ↔ (tree.entry p).nTx ≠ 0
  transactions : BLOCK_VALID_TRANSACTIONS ≤ (tree.entry p).nStatus.valid ↔ 0 < (tree.entry p).nTx
  sequence : tree.linked p = false → (tree.entry p).nSequenceId = 0
  chainTx : tree.Missing p ↔ tree.linked p = false
  work : ∀ q, tree.pprev p = some q → (tree.entry q).nChainWork ≤ (tree.entry p).nChainWork
  treeValid : tree.ValidUpTo BLOCK_VALID_TREE p
  chainValid : BLOCK_VALID_CHAIN ≤ (tree.entry p).nStatus.valid →
    tree.ValidUpTo BLOCK_VALID_CHAIN p
  scriptsValid : BLOCK_VALID_SCRIPTS ≤ (tree.entry p).nStatus.valid →
    tree.ValidUpTo BLOCK_VALID_SCRIPTS p
  unmarked : ¬ tree.Failed p → (tree.entry p).nStatus.failed = false
  offered : tree.worseThanTip p = false → ¬ tree.Missing p → ¬ tree.Failed p →
    p ∈ tree.setBlockIndexCandidates
  candidate : p ∈ tree.setBlockIndexCandidates → tree.worseThanTip p = false ∧ ¬ tree.Missing p
  waiting : tree.pprev p ≠ none → tree.haveData p = true → tree.Missing p → ¬ tree.Failed p →
    (tree.pprev p, p) ∈ tree.mapBlocksUnlinked
  unlinked : (tree.pprev p, p) ∈ tree.mapBlocksUnlinked →
    tree.pprev p ≠ none ∧ tree.haveData p = true ∧ tree.Missing p

/-- What CheckBlockIndex asserts. Without an active chain it is content with a lone entry. -/
structure CheckBlockIndex : Prop where
  grown : tree.Grown
  candidatesKnown : ∀ p ∈ tree.setBlockIndexCandidates, p ∈ tree.mapBlockIndex
  unstarted : tree.chainActive = [] → tree.mapBlockIndex.length ≤ 1
  entries : tree.chainActive ≠ [] → ∀ p ∈ tree.mapBlockIndex, tree.EntryChecked p

def Barred (p : BlockPtr) : Prop := ∃ x ∈ tree.pathToActive p, tree.usable x = false

end checking

variable {tree : BlockTree}

theorem mem_pathToActive (grown : tree.Grown) {p : BlockPtr} (known : p ∈ tree.mapBlockIndex)
    (x : BlockPtr) :
    x ∈ tree.pathToActive p ↔ tree.AncestorOrSelf x p ∧
      ∀ z, tree.AncestorOrSelf x z → tree.AncestorOrSelf z p → z ∉ tree.chainActive := by
  have walk := grown.leveled.mem_walk_iff (fun z => decide (z ∉ tree.chainActive)) known x
  simp only [decide_eq_true_eq] at walk
  exact walk

theorem pathToActive_trans (grown : tree.Grown) {x y p : BlockPtr}
    (known : p ∈ tree.mapBlockIndex) (onPath : x ∈ tree.pathToActive p)
    (below : y ∈ tree.pathToActive x) : y ∈ tree.pathToActive p := by
  obtain ⟨older, between⟩ := (mem_pathToActive grown known x).mp onPath
  have inside := grown.leveled.known_ancestor known older
  obtain ⟨oldest, later⟩ := (mem_pathToActive grown inside y).mp below
  rw [mem_pathToActive grown known]
  refine ⟨oldest.trans older, fun z up down => ?_⟩
  rcases Ancestry.Leveled.total down older with toward | away
  · exact between z toward down
  · exact later z up away

theorem pathToActive_split (grown : tree.Grown) {x y p : BlockPtr}
    (known : p ∈ tree.mapBlockIndex) (onPath : y ∈ tree.pathToActive p)
    (above : tree.AncestorOrSelf y x) (below : tree.AncestorOrSelf x p) :
    y ∈ tree.pathToActive x := by
  obtain ⟨_, between⟩ := (mem_pathToActive grown known y).mp onPath
  rw [mem_pathToActive grown (grown.leveled.known_ancestor known below)]
  exact ⟨above, fun z up down => between z up (down.trans below)⟩

theorem Barred.lift (grown : tree.Grown) {x p : BlockPtr} (known : p ∈ tree.mapBlockIndex)
    (onPath : x ∈ tree.pathToActive p) (barred : tree.usable x = false ∨ tree.Barred x) :
    tree.Barred p := by
  rcases barred with unusable | ⟨y, below, unusable⟩
  · exact ⟨x, onPath, unusable⟩
  · exact ⟨y, pathToActive_trans grown known onPath below, unusable⟩

namespace CheckBlockIndex

theorem linked_below (checked : tree.CheckBlockIndex) {p a : BlockPtr}
    (candidate : p ∈ tree.setBlockIndexCandidates) (older : tree.AncestorOrSelf a p) :
    tree.linked a = true ∨ tree.height a = 0 := by
  have known := checked.candidatesKnown p candidate
  have inside := checked.grown.leveled.known_ancestor known older
  by_cases started : tree.chainActive = []
  · right
    by_contra tall
    cases above : tree.pprev a with
    | none => exact tall (checked.grown.rooted a inside above)
    | some q =>
        obtain ⟨other, level⟩ := checked.grown.leveled a inside q above
        have lone := checked.unstarted started
        cases entries : tree.mapBlockIndex with
        | nil =>
            rw [entries] at inside
            cases inside
        | cons first rest =>
            rw [entries, List.length_cons] at lone
            have none_left : rest = [] := List.length_eq_zero_iff.mp (by omega)
            rw [entries, none_left, List.mem_singleton] at inside other
            rw [inside, other] at level
            omega
  · left
    have complete := ((checked.entries started p known).candidate candidate).2
    by_contra loose
    rw [Bool.not_eq_true, ← (checked.entries started a inside).chainTx] at loose
    obtain ⟨root, oldest, absent⟩ := loose
    exact complete ⟨root, oldest.trans older, absent⟩

end CheckBlockIndex

theorem testPath_clear (path : List BlockPtr) (clear : tree.testPath path = some none) :
    ∀ x ∈ path, tree.usable x = true := by
  induction path with
  | nil =>
      intro x member
      cases member
  | cons p rest ih =>
      unfold testPath at clear
      split at clear
      next => cases clear
      next =>
        split at clear
        next usable => exact List.forall_mem_cons.mpr ⟨usable, ih clear⟩
        next => cases clear

theorem testPath_asserted (path : List BlockPtr)
    (linked : ∀ x ∈ path, tree.linked x = true ∨ tree.height x = 0) :
    ∃ outcome, tree.testPath path = some outcome := by
  induction path with
  | nil => exact ⟨none, rfl⟩
  | cons p rest ih =>
      rw [List.forall_mem_cons] at linked
      have passes : ¬ (!tree.linked p && tree.height p != 0) = true := by
        rcases linked.1 with here | bottom
        · simp [here]
        · simp [bottom]
      unfold testPath
      rw [if_neg passes]
      split
      next => exact ih linked.2
      next => exact ⟨some p, rfl⟩

section dropping

structure Discarded (tree found : BlockTree) : Prop where
  relabelled : Relabelled tree found
  mapBlockIndex : found.mapBlockIndex = tree.mapBlockIndex
  chainActive : found.chainActive = tree.chainActive
  unusable : ∀ p, tree.usable p = false → found.usable p = false
  barred : ∀ p, found.usable p = false → tree.usable p = false ∨ tree.Barred p
  candidates : ∀ p ∈ found.setBlockIndexCandidates, p ∈ tree.setBlockIndexCandidates
  erased : ∀ p ∈ tree.setBlockIndexCandidates, p ∉ found.setBlockIndexCandidates → tree.Barred p

namespace Discarded

variable {found : BlockTree}

theorem refl (tree : BlockTree) : Discarded tree tree where
  relabelled _ := rfl
  mapBlockIndex := rfl
  chainActive := rfl
  unusable _ unusable := unusable
  barred _ unusable := Or.inl unusable
  candidates _ member := member
  erased _ member missing := absurd member missing

theorem pathToActive (dropped : Discarded tree found) (p : BlockPtr) :
    found.pathToActive p = tree.pathToActive p := by
  simp only [BlockTree.pathToActive, dropped.relabelled.ancestry, dropped.chainActive]

theorem barred_iff (dropped : Discarded tree found) (grown : tree.Grown) {p : BlockPtr}
    (known : p ∈ tree.mapBlockIndex) : found.Barred p ↔ tree.Barred p := by
  unfold Barred
  rw [dropped.pathToActive]
  constructor
  · rintro ⟨x, onPath, unusable⟩
    exact Barred.lift grown known onPath (dropped.barred x unusable)
  · rintro ⟨x, onPath, unusable⟩
    exact ⟨x, onPath, dropped.unusable x unusable⟩

theorem erase (dropped : Discarded tree found) {x : BlockPtr} (barred : tree.Barred x) :
    Discarded tree (found.eraseCandidate x) where
  relabelled := dropped.relabelled
  mapBlockIndex := dropped.mapBlockIndex
  chainActive := dropped.chainActive
  unusable := dropped.unusable
  barred := dropped.barred
  candidates p member := dropped.candidates p (List.mem_of_mem_filter member)
  erased p member missing := by
    by_cases same : p = x
    · exact same ▸ barred
    · apply dropped.erased p member
      intro still
      apply missing
      exact List.mem_filter.mpr ⟨still, bne_iff_ne.mpr same⟩

theorem markChild (dropped : Discarded tree found) {x : BlockPtr} (barred : tree.Barred x) :
    Discarded tree
      (found.setStatus x { (found.entry x).nStatus with failedChild := true }) := by
  have self : (found.setStatus x { (found.entry x).nStatus with failedChild := true }).entry x =
      { found.entry x with nStatus := { (found.entry x).nStatus with failedChild := true } } :=
    Function.update_self ..
  have other (p : BlockPtr) (apart : p ≠ x) :
      (found.setStatus x { (found.entry x).nStatus with failedChild := true }).entry p =
        found.entry p := Function.update_of_ne apart _ _
  refine ⟨fun p => ?_, dropped.mapBlockIndex, dropped.chainActive, fun p unusable => ?_,
    fun p unusable => ?_, dropped.candidates, dropped.erased⟩
  · by_cases same : p = x
    · subst same
      rw [self, dropped.relabelled p]
    · rw [other p same]
      exact dropped.relabelled p
  · by_cases same : p = x
    · subst same
      simp [usable, self, BlockStatus.failed]
    · have before := dropped.unusable p unusable
      simp only [usable, haveData, other p same] at before ⊢
      exact before
  · by_cases same : p = x
    · exact Or.inr (same ▸ barred)
    · apply dropped.barred p
      simp only [usable, haveData, other p same] at unusable ⊢
      exact unusable

theorem dropDescendant (dropped : Discarded tree found) {x : BlockPtr} (barred : tree.Barred x)
    (fFailedChain : Bool) :
    Discarded tree (BlockTree.dropDescendant fFailedChain found x) := by
  unfold BlockTree.dropDescendant
  cases fFailedChain with
  | true => exact (dropped.markChild barred).erase barred
  | false =>
      have same := dropped.erase barred
      exact ⟨same.relabelled, same.mapBlockIndex, same.chainActive, same.unusable, same.barred,
        same.candidates, same.erased⟩

theorem dropDescendants (dropped : Discarded tree found) (members : List BlockPtr)
    (barred : ∀ x ∈ members, tree.Barred x) (fFailedChain : Bool) :
    Discarded tree (members.foldl (BlockTree.dropDescendant fFailedChain) found) := by
  induction members generalizing found with
  | nil => exact dropped
  | cons x rest ih =>
      rw [List.forall_mem_cons] at barred
      exact ih (dropped.dropDescendant barred.1 fFailedChain) barred.2

theorem dropChain (dropped : Discarded tree found) (grown : tree.Grown)
    {pindexNew pindexTest : BlockPtr} (known : pindexNew ∈ tree.mapBlockIndex)
    (onPath : pindexTest ∈ found.pathToActive pindexNew)
    (unusable : found.usable pindexTest = false) :
    Discarded tree (found.dropChain pindexNew pindexTest) := by
  rw [dropped.pathToActive] at onPath
  have older := ((mem_pathToActive grown known pindexTest).mp onPath).1
  have barred (x : BlockPtr) (above : tree.AncestorOrSelf pindexTest x)
      (below : tree.AncestorOrSelf x pindexNew) : tree.Barred x :=
    Barred.lift grown (grown.leveled.known_ancestor known below)
      (pathToActive_split grown known onPath above below) (dropped.barred pindexTest unusable)
  have listed : pindexTest ∈ tree.ancestry pindexNew :=
    (grown.leveled.mem_ancestry_iff known pindexTest).mpr older
  unfold BlockTree.dropChain
  apply erase
  · apply dropped.dropDescendants
    intro x member
    rw [dropped.relabelled.ancestry] at member
    exact barred x (Ancestry.before_descends _ pindexNew x pindexTest listed member)
      (mem_ancestry pindexNew x (List.takeWhile_subset _ member))
  · exact barred pindexTest (Ancestry.AncestorOrSelf.refl pindexTest) older

end Discarded

theorem dropDescendants_candidates (fFailedChain : Bool) (members : List BlockPtr)
    (tree : BlockTree) :
    (members.foldl (dropDescendant fFailedChain) tree).setBlockIndexCandidates =
      tree.setBlockIndexCandidates.filter fun p => decide (p ∉ members) := by
  induction members generalizing tree with
  | nil => simp
  | cons x rest ih =>
      have first : (dropDescendant fFailedChain tree x).setBlockIndexCandidates =
          tree.setBlockIndexCandidates.filter (· != x) := by
        cases fFailedChain <;> rfl
      rw [List.foldl_cons, ih, first, List.filter_filter]
      apply List.filter_congr
      intro p _
      rw [Bool.eq_iff_iff]
      simp only [List.mem_cons, not_or, Bool.and_eq_true, decide_eq_true_eq, bne_iff_ne]
      exact and_comm

theorem dropChain_shrinks (pindexNew pindexTest : BlockPtr)
    (candidate : pindexNew ∈ tree.setBlockIndexCandidates) :
    (tree.dropChain pindexNew pindexTest).setBlockIndexCandidates.length <
      tree.setBlockIndexCandidates.length := by
  unfold dropChain
  simp only [eraseCandidate, dropDescendants_candidates, List.filter_filter]
  rw [List.length_filter_lt_length_iff_exists]
  refine ⟨pindexNew, candidate, fun kept => ?_⟩
  simp only [Bool.and_eq_true, decide_eq_true_eq, bne_iff_ne] at kept
  have first : pindexNew ∈ (tree.ancestry pindexNew).takeWhile (· ≠ pindexTest) := by
    rw [ancestry, Ancestry.ancestry, List.takeWhile_cons, if_pos (decide_eq_true kept.1)]
    exact List.mem_cons_self
  exact kept.2 first

end dropping

structure MostWork (tree found : BlockTree) (result : Option BlockPtr) : Prop where
  best : ∀ p, result = some p → p ∈ tree.setBlockIndexCandidates ∧ ¬ tree.Barred p ∧
    ∀ other ∈ tree.setBlockIndexCandidates, ¬ tree.Barred other → tree.worse p other = false
  nobody : result = none → ∀ p ∈ tree.setBlockIndexCandidates, tree.Barred p
  kept : ∀ p ∈ found.setBlockIndexCandidates, p ∈ tree.setBlockIndexCandidates
  removed : ∀ p ∈ tree.setBlockIndexCandidates, p ∉ found.setBlockIndexCandidates →
    tree.Barred p

theorem findMostWork_best (grown : tree.Grown)
    (known : ∀ p ∈ tree.setBlockIndexCandidates, p ∈ tree.mapBlockIndex)
    (linked : ∀ p ∈ tree.setBlockIndexCandidates, ∀ a, tree.AncestorOrSelf a p →
      tree.linked a = true ∨ tree.height a = 0)
    (fuel : Nat) (now : BlockTree) (dropped : Discarded tree now)
    (enough : now.setBlockIndexCandidates.length < fuel) :
    ∃ found result, findMostWork fuel now = some (found, result) ∧ MostWork tree found result := by
  induction fuel generalizing now with
  | zero => omega
  | succ fuel ih =>
      unfold findMostWork
      cases last : Ranking.last now.worse now.setBlockIndexCandidates with
      | none =>
          have empty := Ranking.last_none _ last
          refine ⟨now, none, rfl, ?_, ?_, dropped.candidates, dropped.erased⟩
          · intro p same
            cases same
          · intro _ p member
            apply dropped.erased p member
            rw [empty]
            exact List.not_mem_nil
      | some pindexNew =>
          have candidate := Ranking.last_mem _ pindexNew last
          have before := dropped.candidates pindexNew candidate
          have asserted : ∀ x ∈ now.pathToActive pindexNew,
              now.linked x = true ∨ now.height x = 0 := by
            intro x onPath
            rw [dropped.pathToActive] at onPath
            rw [dropped.relabelled.linked, dropped.relabelled.height]
            exact linked pindexNew before x
              ((mem_pathToActive grown (known pindexNew before) x).mp onPath).1
          obtain ⟨outcome, tested⟩ := testPath_asserted _ asserted
          dsimp only
          rw [tested]
          cases outcome with
          | none =>
              have free : ¬ tree.Barred pindexNew := by
                rw [← dropped.barred_iff grown (known pindexNew before)]
                rintro ⟨x, onPath, unusable⟩
                rw [testPath_clear _ tested x onPath] at unusable
                cases unusable
              refine ⟨now, some pindexNew, rfl, ?_, ?_, dropped.candidates, dropped.erased⟩
              · intro p same
                cases same
                refine ⟨before, free, fun other member usable => ?_⟩
                have still : other ∈ now.setBlockIndexCandidates := by
                  by_contra missing
                  exact usable (dropped.erased other member missing)
                have top := Ranking.last_top now.worse_ranks _ pindexNew last other still
                rw [dropped.relabelled.worse] at top
                exact top
              · intro same
                cases same
          | some pindexTest =>
              obtain ⟨onPath, unusable⟩ := testPath_stops _ pindexTest tested
              have further := dropped.dropChain grown (known pindexNew before) onPath unusable
              have fewer := dropChain_shrinks pindexNew pindexTest candidate
              exact ih _ further (by omega)

/-- FindMostWorkChain ends with the best candidate whose path down to the active chain has no
failed block and none without data, and it takes only others from the set. -/
theorem findMostWorkChain_best (tree : BlockTree) (checked : tree.CheckBlockIndex) :
    ∃ found result, tree.findMostWorkChain = some (found, result) ∧
      MostWork tree found result :=
  findMostWork_best checked.grown checked.candidatesKnown
    (fun _ candidate _ older => checked.linked_below candidate older)
    (tree.setBlockIndexCandidates.length + 1) tree (Discarded.refl tree) (Nat.lt_succ_self _)

def failedFork : BlockTree :=
  { BlockTree.empty with
    mapBlockIndex := [0, 1]
    entry := fun p =>
      if p = 0 then ⟨1, none, 0, 1, 1, 1, 0, ⟨5, true, false, false, false⟩⟩
      else ⟨2, some 0, 1, 2, 1, 2, 1, ⟨3, true, false, true, false⟩⟩
    chainActive := [0]
    setBlockIndexCandidates := [0, 1] }

theorem failedFork_older (a p : BlockPtr) (older : failedFork.AncestorOrSelf a p) :
    a = p ∨ a = 0 := by
  induction older with
  | refl => exact Or.inl rfl
  | tail _ above ih =>
      rename_i b c _
      have parent : (if b = 0 then none else some 0 : Option BlockPtr) = some c := by
        rw [← above]
        by_cases same : b = 0 <;> simp [failedFork, pprev, same]
      by_cases same : b = 0
      · simp [same] at parent
      · rw [if_neg same] at parent
        exact Or.inr (Option.some.inj parent).symm

theorem failedFork_stored (p : BlockPtr) : failedFork.haveData p = true := by
  by_cases same : p = 0 <;> simp [failedFork, haveData, same]

theorem failedFork_complete (p : BlockPtr) : ¬ failedFork.Missing p := by
  rintro ⟨a, _, absent⟩
  rw [failedFork_stored] at absent
  cases absent

theorem failedFork_valid (level : Nat) (p : BlockPtr) (known : p ∈ failedFork.mapBlockIndex)
    (valid : level ≤ (failedFork.entry p).nStatus.valid) : failedFork.ValidUpTo level p := by
  intro a older notGenesis
  rcases failedFork_older a p older with rfl | rfl
  · exact valid
  · exact absurd rfl notGenesis

theorem failedFork_entry (p : BlockPtr) (known : p ∈ failedFork.mapBlockIndex) :
    failedFork.EntryChecked p := by
  have complete := failedFork_complete p
  have valid (level : Nat) := failedFork_valid level p known
  have failed : failedFork.Failed 1 := ⟨1, Ancestry.AncestorOrSelf.refl 1, rfl⟩
  have either : p = 0 ∨ p = 1 := by simpa [failedFork] using known
  constructor
  case treeValid =>
    apply valid
    rcases either with rfl | rfl <;> decide
  case chainValid => exact valid _
  case scriptsValid => exact valid _
  case chainTx =>
    refine ⟨fun missing => absurd missing complete, fun loose => absurd loose ?_⟩
    rcases either with rfl | rfl <;> decide
  case unmarked =>
    rcases either with rfl | rfl
    · exact fun _ => rfl
    · exact fun sound => absurd failed sound
  case offered =>
    rcases either with rfl | rfl <;> exact fun _ _ _ => by decide
  case candidate =>
    intro _
    refine ⟨?_, complete⟩
    rcases either with rfl | rfl <;> decide
  case waiting => exact fun _ _ missing => absurd missing complete
  case unlinked =>
    intro waits
    cases waits
  case work =>
    intro q above
    rcases either with rfl | rfl
    · cases above
    · cases above
      decide
  all_goals rcases either with rfl | rfl <;> decide

theorem failedFork_checked : failedFork.CheckBlockIndex where
  grown := by
    refine ⟨fun p known q above => ?_, by decide⟩
    have either : p = 0 ∨ p = 1 := by simpa [failedFork] using known
    rcases either with rfl | rfl
    · cases above
    · cases above
      decide
  candidatesKnown := by decide
  unstarted := by decide
  entries _ := failedFork_entry

theorem findMostWorkChain_best_failedFork :
    ∃ found result, failedFork.findMostWorkChain = some (found, result) ∧
      MostWork failedFork found result :=
  findMostWorkChain_best failedFork failedFork_checked

example : failedFork.findMostWorkChain.map Prod.snd = some (some 0) := by decide

end BlockTree

end CryptoYen
