import CryptoYen.Index.Reorganize

set_option autoImplicit false

namespace CryptoYen

namespace BlockTree

variable {tree : BlockTree}

structure Searched (tree found : BlockTree) : Prop where
  sound : found.Sound
  restatused : Restatused tree found
  chainActive : found.chainActive = tree.chainActive
  haveUndo : ∀ p, (found.entry p).nStatus.haveUndo = (tree.entry p).nStatus.haveUndo
  failed : ∀ p, tree.Failed p → found.Failed p

namespace Searched

variable {found last : BlockTree}

theorem refl (sound : tree.Sound) : Searched tree tree :=
  ⟨sound, Restatused.refl tree, rfl, fun _ => rfl, fun _ failed => failed⟩

theorem trans (first : Searched tree found) (second : Searched found last) :
    Searched tree last where
  sound := second.sound
  restatused := first.restatused.trans second.restatused
  chainActive := second.chainActive.trans first.chainActive
  haveUndo p := (second.haveUndo p).trans (first.haveUndo p)
  failed p failed := second.failed p (first.failed p failed)

end Searched

theorem dropDescendant_searched {x : BlockPtr} (sound : tree.Sound)
    (linked : tree.linked x = true) (failed : tree.Failed x) :
    Searched tree (dropDescendant true tree x) := by
  have moves := dropDescendant_moves sound linked failed
  constructor
  · exact moves.sound sound
  · exact moves.toRestatused
  · rfl
  · intro p
    by_cases same : p = x
    · subst same
      show ((tree.setStatus p { (tree.entry p).nStatus with failedChild := true }).entry
        p).nStatus.haveUndo = _
      rw [setStatus_self]
    · exact congrArg (fun entry => entry.nStatus.haveUndo) (setStatus_other tree x p _ same)
  · exact moves.failed

theorem dropDescendants_searched (members : List BlockPtr) (tree : BlockTree)
    (sound : tree.Sound) (linked : ∀ x ∈ members, tree.linked x = true)
    (failed : ∀ x ∈ members, tree.Failed x) :
    Searched tree (members.foldl (dropDescendant true) tree) := by
  induction members generalizing tree with
  | nil => exact Searched.refl sound
  | cons x rest ih =>
      have first := dropDescendant_searched sound (linked x List.mem_cons_self)
        (failed x List.mem_cons_self)
      apply first.trans
      apply ih _ first.sound
      · intro y member
        rw [first.restatused.linked]
        exact linked y (List.mem_cons_of_mem x member)
      · exact fun y member => first.failed y (failed y (List.mem_cons_of_mem x member))

theorem failed_of_mark (sound : tree.Sound) (p : BlockPtr) (known : p ∈ tree.mapBlockIndex)
    (marked : (tree.entry p).nStatus.failed = true) : tree.Failed p := by
  rw [BlockStatus.failed, Bool.or_eq_true] at marked
  rcases marked with here | child
  · exact ⟨p, Ancestry.AncestorOrSelf.refl p, here⟩
  · exact sound.selection.descends p known child

/-- A block on the way to a candidate has its data, so what is wrong with it is a failure mark. -/
theorem dropChain_searched (sound : tree.Sound) {pindexNew pindexTest : BlockPtr}
    (candidate : tree.Candidate pindexNew) (onPath : pindexTest ∈ tree.ancestry pindexNew)
    (unusable : tree.usable pindexTest = false) :
    Searched tree (tree.dropChain pindexNew pindexTest) := by
  have linkage := sound.linkage
  have ancestor := mem_ancestry pindexNew pindexTest onPath
  have linkedUp (x : BlockPtr) (above : tree.AncestorOrSelf x pindexNew) : tree.linked x = true :=
    linkage.linked_ancestor candidate.known candidate.linked above
  have known := linkage.leveled.known_ancestor candidate.known ancestor
  have stored := (linkage.linked pindexTest known (linkedUp pindexTest ancestor)).stored
  have marked : (tree.entry pindexTest).nStatus.failed = true := by
    simpa [usable, stored] using unusable
  have failed := failed_of_mark sound pindexTest known marked
  have dropped := dropDescendants_searched
    ((tree.ancestry pindexNew).takeWhile (· ≠ pindexTest)) tree sound
    (fun x member => linkedUp x (mem_ancestry pindexNew x (List.takeWhile_subset _ member)))
    (fun x member =>
      failed.descends (Ancestry.before_descends _ pindexNew x pindexTest onPath member))
  have linked : (((tree.ancestry pindexNew).takeWhile (· ≠ pindexTest)).foldl
      (dropDescendant true) tree).linked pindexTest = true := by
    rw [dropped.restatused.linked]
    exact linkedUp pindexTest ancestor
  have moves := eraseFailed_moves dropped.sound linked (dropped.failed pindexTest failed)
  unfold dropChain
  simp only [marked]
  apply dropped.trans
  exact ⟨moves.sound dropped.sound, moves.toRestatused, rfl, fun _ => rfl, moves.failed⟩

theorem testPath_passes (sound : tree.Sound) (fuel : Nat) (p : BlockPtr)
    (passes : tree.testPath
      ((Ancestry.ancestry tree.pprev fuel p).takeWhile (· ∉ tree.chainActive)) = some none)
    (a : BlockPtr) (member : a ∈ Ancestry.ancestry tree.pprev fuel p) :
    (tree.entry a).nStatus.failedValid = false := by
  induction fuel generalizing p with
  | zero => cases member
  | succ fuel ih =>
      have reached := Ancestry.mem_ancestry _ a p member
      by_cases active : p ∈ tree.chainActive
      · -- the rest of the walk is below an active block
        have connected : tree.Connected p := ⟨sound.selection.activeKnown p active, Or.inl active⟩
        have above := connected.ancestor sound.selection.connected reached
        exact (sound.selection.connected a above).sound
      · simp only [Ancestry.ancestry, List.takeWhile_cons, active, not_false_eq_true,
          decide_true, ↓reduceIte, testPath] at passes
        split at passes
        next => cases passes
        next =>
          split at passes
          next usable =>
            rcases List.mem_cons.mp member with rfl | later
            · simp only [BlockTree.usable, BlockStatus.failed, Bool.and_eq_true,
                Bool.not_eq_true', Bool.or_eq_false_iff] at usable
              exact usable.1.1
            · cases above : tree.pprev p with
              | none => simp [above] at later
              | some q =>
                  simp only [above] at later passes
                  exact ih q passes later
          next => simp at passes

theorem testPath_stops (path : List BlockPtr) (pindexTest : BlockPtr)
    (stops : tree.testPath path = some (some pindexTest)) :
    pindexTest ∈ path ∧ tree.usable pindexTest = false := by
  induction path with
  | nil => cases stops
  | cons p rest ih =>
      unfold testPath at stops
      split at stops
      next => cases stops
      next =>
        split at stops
        next =>
          obtain ⟨member, unusable⟩ := ih stops
          exact ⟨List.mem_cons_of_mem p member, unusable⟩
        next unusable =>
          cases stops
          exact ⟨List.mem_cons_self, Bool.eq_false_iff.mpr unusable⟩

theorem findMostWork_spec (fuel : Nat) (tree found : BlockTree) (result : Option BlockPtr)
    (sound : tree.Sound) (searched : findMostWork fuel tree = some (found, result)) :
    Searched tree found ∧
      Ranking.last found.worse found.setBlockIndexCandidates = result ∧
      ∀ p, result = some p → ¬ found.Failed p := by
  induction fuel generalizing tree with
  | zero => cases searched
  | succ fuel ih =>
      unfold findMostWork at searched
      split at searched
      next nobody =>
        cases searched
        exact ⟨Searched.refl sound, nobody, fun p some_p => by cases some_p⟩
      next pindexNew last =>
        have candidate := sound.selection.candidates pindexNew (Ranking.last_mem _ _ last)
        split at searched
        next => cases searched
        next passes =>
          cases searched
          refine ⟨Searched.refl sound, last, ?_⟩
          rintro p same ⟨a, ancestor, failed⟩
          cases same
          have member := (sound.linkage.mem_ancestry_iff candidate.known a).mpr ancestor
          rw [testPath_passes sound _ _ passes a member] at failed
          cases failed
        next pindexTest stops =>
          obtain ⟨member, unusable⟩ := testPath_stops _ pindexTest stops
          have onPath := List.takeWhile_subset _ member
          have dropped := dropChain_searched sound candidate onPath unusable
          obtain ⟨rest, last, valid⟩ := ih _ dropped.sound searched
          exact ⟨dropped.trans rest, last, valid⟩

end BlockTree

end CryptoYen
