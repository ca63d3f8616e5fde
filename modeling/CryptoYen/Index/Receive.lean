import CryptoYen.Index.Link

set_option autoImplicit false

namespace CryptoYen

namespace BlockTree

variable {tree : BlockTree}

variable {p : BlockPtr} {nTx : Nat}

structure CountersFit (tree : BlockTree) (nTx : Nat) (p : BlockPtr) : Prop where
  chains : (tree.storeData p nTx).ChainsFit
  sequence : tree.nBlockSequenceId + tree.mapBlocksUnlinked.length + 1 < 2 ^ 32

theorem Selection.waiting (selection : tree.Selection)
    (more : List (Option BlockPtr × BlockPtr)) :
    Selection { tree with mapBlocksUnlinked := tree.mapBlocksUnlinked ++ more } where
  path := selection.path
  activeKnown := selection.activeKnown
  connected p here :=
    have was := selection.connected p here
    ⟨was.linked, was.sound, was.parent_connected⟩
  descends := selection.descends
  offered := selection.offered
  candidates p member :=
    have was := selection.candidates p member
    ⟨was.known, was.linked, was.as_good⟩

theorem awaitParent_sound (sound : tree.Sound) (storable : tree.Storable p nTx)
    (lacking : (tree.storeData p nTx).parentLinked p = false) :
    ((tree.storeData p nTx).awaitParent p).Sound := by
  obtain ⟨linkage, selection⟩ := sound
  have unlinked := storable.unlinked linkage
  have kept := tree.storeData_linked p nTx unlinked
  have extension := tree.storeData_extends p nTx unlinked
  unfold parentLinked at lacking
  unfold awaitParent
  cases above : (tree.storeData p nTx).pprev p with
  | none => simp [above] at lacking
  | some q =>
      simp only [above] at lacking
      have parent : tree.pprev p = some q := by rw [← above, storeData_pprev]
      obtain ⟨inside, level⟩ := linkage.leveled p storable.known q parent
      have apart : q ≠ p := by
        rintro rfl
        omega
      rw [kept] at lacking
      have valid : ((tree.storeData p nTx).entry q).nStatus.isValid BLOCK_VALID_TREE = true := by
        have status := linkage.sound q inside lacking
        rw [tree.storeData_other p q nTx apart]
        simp [BlockStatus.isValid, status.1, status.2]
      simp only [valid, ↓reduceIte]
      constructor
      · apply stored_linkage p nTx linkage storable [(some q, p)] [] _ rfl rfl
        · intro pair member
          rw [List.mem_singleton] at member
          subst member
          constructor
          · exact storable.known
          · exact above
          · simp [haveData, storeData, storedEntry]
          · exact (congrFun kept p).trans unlinked
          · exact ⟨q, rfl, (congrFun kept q).trans lacking⟩
        · intro other member
          cases member
      · exact (extension.selection selection).waiting [(some q, p)]

theorem receivedBlockTransactions_sound (sound : tree.Sound) (storable : tree.Storable p nTx)
    (fits : tree.CountersFit nTx p) : (tree.receivedBlockTransactions nTx p).Sound := by
  have unlinked := storable.unlinked sound.linkage
  have kept := tree.storeData_linked p nTx unlinked
  unfold receivedBlockTransactions
  cases ready : (tree.storeData p nTx).parentLinked p with
  | false => simpa [ready] using awaitParent_sound sound storable ready
  | true =>
      simp only [↓reduceIte, ready]
      apply linkBlocks_sound _ (tree.storeData p nTx) [p]
      · apply stored_linkage p nTx sound.linkage storable [] [p] _ _ rfl
        · intro pair member
          cases member
        · intro q member
          rw [List.mem_singleton] at member
          subst member
          constructor
          · exact storable.known
          · simp [haveData, storeData, storedEntry]
          · exact (congrFun kept q).trans unlinked
          · exact ready
        · simp [storeData, setEntry]
      · exact (tree.storeData_extends p nTx unlinked).selection sound.selection
      · exact fits.chains
      · simp [storeData, setEntry]
        omega
      · have sequence := fits.sequence
        simp only [storeData, setEntry, List.length_singleton]
        omega

end BlockTree

end CryptoYen
