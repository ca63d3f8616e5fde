import CryptoYen.Index.ChainRuns
import CryptoYen.Net.DownloadPlan

set_option autoImplicit false

namespace CryptoYen

structure DownloadReady (tree : SkipTree) (chainActive : ChainVector) : Prop where
  built : tree.Built
  oneGenesis : tree.OneGenesis
  chainTx : ∀ p ∈ tree.mapBlockIndex, tree.linked p = true → ¬ tree.Missing p
  active : ∃ tip, chainActive.EndsAt tree.toBlockTree tip ∧ ¬ tree.Missing tip

theorem BlockTree.not_missing_of_linked {tree : BlockTree} (sound : tree.Sound) (p : BlockPtr)
    (known : p ∈ tree.mapBlockIndex) (linked : tree.linked p = true) : ¬ tree.Missing p := by
  rintro ⟨a, older, absent⟩
  rw [(sound.linkage.chainTx known).mp linked a older] at absent
  cases absent

theorem DownloadReady.of_sound {tree : SkipTree} {chainActive : ChainVector} {tip : BlockPtr}
    (built : tree.Built) (oneGenesis : tree.OneGenesis) (sound : tree.Sound)
    (ends : chainActive.EndsAt tree.toBlockTree tip) (active : tip ∈ tree.chainActive) :
    DownloadReady tree chainActive where
  built := built
  oneGenesis := oneGenesis
  chainTx := BlockTree.not_missing_of_linked sound
  active := by
    have connected := sound.selection.connected tip ⟨ends.known, Or.inl active⟩
    exact ⟨tip, ends, BlockTree.not_missing_of_linked sound tip ends.known connected.linked⟩

theorem BlockTree.not_missing_ancestor {tree : BlockTree} {a p : BlockPtr}
    (complete : ¬ tree.Missing p) (older : tree.AncestorOrSelf a p) : ¬ tree.Missing a := by
  rintro ⟨root, oldest, absent⟩
  exact complete ⟨root, oldest.trans older, absent⟩

namespace PeerChain

/-- The pointers of a peer lead into the tree, and the last common block has all data below it. -/
structure Tracks (tree : BlockTree) (peer : PeerChain) : Prop where
  bestKnown : ∀ p, peer.pindexBestKnownBlock = some p → p ∈ tree.mapBlockIndex
  lastCommon : ∀ p, peer.pindexLastCommonBlock = some p → p ∈ tree.mapBlockIndex
  complete : ∀ p, peer.pindexLastCommonBlock = some p → ¬ tree.Missing p

section tracking

variable {tree : BlockTree} {peer : PeerChain}

theorem initial_tracks (tree : BlockTree) : initial.Tracks tree where
  bestKnown _ known := by cases known
  lastCommon _ known := by cases known
  complete _ known := by cases known

theorem offer_lastCommon (tree : BlockTree) (peer : PeerChain) (p : BlockPtr) :
    (peer.offer tree p).pindexLastCommonBlock = peer.pindexLastCommonBlock := by
  unfold offer
  split
  next => rfl
  next => split <;> rfl

theorem offer_best (tree : BlockTree) (peer : PeerChain) (p best : BlockPtr)
    (offered : (peer.offer tree p).pindexBestKnownBlock = some best) :
    best = p ∨ peer.pindexBestKnownBlock = some best := by
  unfold offer at offered
  split at offered
  next => exact Or.inl (Option.some.inj offered).symm
  next =>
    split at offered
    next => exact Or.inl (Option.some.inj offered).symm
    next => exact Or.inr offered

theorem Tracks.offer (tracks : peer.Tracks tree) (p : BlockPtr) (known : p ∈ tree.mapBlockIndex) :
    (peer.offer tree p).Tracks tree where
  bestKnown best offered := by
    rcases offer_best tree peer p best offered with rfl | before
    · exact known
    · exact tracks.bestKnown best before
  lastCommon := by
    rw [offer_lastCommon]
    exact tracks.lastCommon
  complete := by
    rw [offer_lastCommon]
    exact tracks.complete

theorem Tracks.withHash (tracks : peer.Tracks tree) (hash : Uint256) :
    Tracks tree { peer with hashLastUnknownBlock := hash } :=
  ⟨tracks.bestKnown, tracks.lastCommon, tracks.complete⟩

theorem Tracks.process (tracks : peer.Tracks tree) :
    (peer.processBlockAvailability tree).Tracks tree := by
  unfold processBlockAvailability
  split
  next => exact tracks
  next =>
    split
    next => exact tracks
    next p found =>
      split
      next => exact (tracks.offer p (BlockTree.find_known _ p found)).withHash 0
      next => exact tracks

theorem process_lastCommon (tree : BlockTree) (peer : PeerChain) :
    (peer.processBlockAvailability tree).pindexLastCommonBlock = peer.pindexLastCommonBlock := by
  unfold processBlockAvailability
  split
  next => rfl
  next =>
    split
    next => rfl
    next p _ =>
      split
      next => exact offer_lastCommon tree peer p
      next => rfl

theorem Tracks.update (tracks : peer.Tracks tree) (hash : Uint256) :
    (peer.updateBlockAvailability tree hash).Tracks tree := by
  unfold updateBlockAvailability
  dsimp only
  split
  next => exact tracks.process.withHash hash
  next p found =>
    split
    next => exact tracks.process.offer p (BlockTree.find_known _ p found)
    next => exact tracks.process.withHash hash

structure Extends (tree next : BlockTree) : Prop where
  known : ∀ p ∈ tree.mapBlockIndex, p ∈ next.mapBlockIndex
  pprev : ∀ p ∈ tree.mapBlockIndex, next.pprev p = tree.pprev p
  haveData : ∀ p ∈ tree.mapBlockIndex, tree.haveData p = true → next.haveData p = true

theorem Tracks.extends {next : BlockTree} (tracks : peer.Tracks tree) (grown : tree.Grown)
    (extends_ : Extends tree next) : peer.Tracks next where
  bestKnown p best := extends_.known p (tracks.bestKnown p best)
  lastCommon p last := extends_.known p (tracks.lastCommon p last)
  complete p last := by
    have known := tracks.lastCommon p last
    rintro ⟨a, older, absent⟩
    have upward (x : BlockPtr) (inside : x ∈ tree.mapBlockIndex) (q : BlockPtr)
        (above : next.pprev x = some q) : q ∈ tree.mapBlockIndex := by
      rw [extends_.pprev x inside] at above
      exact grown.leveled.upward x inside q above
    have before : tree.AncestorOrSelf a p := older.congr (· ∈ tree.mapBlockIndex) upward
      (fun x inside => (extends_.pprev x inside).symm) known
    apply tracks.complete p last
    refine ⟨a, before, ?_⟩
    have inside := grown.leveled.known_ancestor known before
    by_contra stored
    rw [Bool.not_eq_false] at stored
    rw [extends_.haveData a inside stored] at absent
    cases absent

end tracking

end PeerChain

namespace DownloadSearch

variable (tree : SkipTree) (search : DownloadSearch)

def Climbs : Nat → List BlockPtr → Prop
  | _, [] => True
  | height, p :: rest =>
      tree.AncestorOrSelf p search.pindexBestKnownBlock ∧ tree.height p = height + 1 ∧
        Climbs (height + 1) rest

structure Wanted (p : BlockPtr) : Prop where
  older : tree.AncestorOrSelf p search.pindexBestKnownBlock
  absent : tree.haveData p = false
  notInFlight : search.mapBlocksInFlight.lookup (tree.entry p).phashBlock = none
  inWindow : tree.height p ≤ search.nWindowEnd

structure Sound (plan : DownloadPlan) : Prop where
  size : plan.vBlocks.length ≤ search.count
  rising : plan.vBlocks.Pairwise fun p q => tree.height p < tree.height q
  wanted : ∀ p ∈ plan.vBlocks, search.Wanted tree p
  common : tree.AncestorOrSelf plan.pindexLastCommonBlock search.pindexBestKnownBlock
  complete : ¬ tree.Missing plan.pindexLastCommonBlock

structure Open (height : Nat) (plan : DownloadPlan) : Prop extends Sound tree search plan where
  room : plan.vBlocks.length < search.count
  behind : ∀ p ∈ plan.vBlocks, tree.height p ≤ height

variable {tree} {search}

theorem Open.mono {height higher : Nat} {plan : DownloadPlan} (opened : search.Open tree height plan)
    (le : height ≤ higher) : search.Open tree higher plan :=
  ⟨opened.toSound, opened.room, fun p member => Nat.le_trans (opened.behind p member) le⟩

theorem Open.wait {height : Nat} {plan : DownloadPlan} (opened : search.Open tree height plan)
    (waitingfor nodeStaller : NodeId) :
    search.Open tree height
      { plan with waitingfor := waitingfor, nodeStaller := nodeStaller } :=
  ⟨⟨opened.size, opened.rising, opened.wanted, opened.common, opened.complete⟩, opened.room,
    opened.behind⟩

theorem Open.reach {height : Nat} {plan : DownloadPlan} (opened : search.Open tree height plan)
    {p : BlockPtr} (older : tree.AncestorOrSelf p search.pindexBestKnownBlock)
    (complete : ¬ tree.Missing p) :
    search.Open tree height { plan with pindexLastCommonBlock := p } :=
  ⟨⟨opened.size, opened.rising, opened.wanted, older, complete⟩, opened.room, opened.behind⟩

theorem Open.push {height : Nat} {plan : DownloadPlan} (opened : search.Open tree height plan)
    {p : BlockPtr} (level : tree.height p = height + 1) (wanted : search.Wanted tree p) :
    search.Sound tree { plan with vBlocks := plan.vBlocks ++ [p] } ∧
      ∀ q ∈ plan.vBlocks ++ [p], tree.height q ≤ height + 1 := by
  have room := opened.room
  refine ⟨⟨?_, ?_, ?_, opened.common, opened.complete⟩, ?_⟩
  · rw [List.length_append, List.length_singleton]
    omega
  · rw [List.pairwise_append]
    refine ⟨opened.rising, List.pairwise_singleton _ _, fun q member r last => ?_⟩
    have before := opened.behind q member
    rw [List.mem_singleton.mp last]
    omega
  · intro q member
    rcases List.mem_append.mp member with inside | last
    · exact opened.wanted q inside
    · rw [List.mem_singleton.mp last]
      exact wanted
  · intro q member
    rcases List.mem_append.mp member with inside | last
    · have before := opened.behind q inside
      omega
    · rw [List.mem_singleton.mp last]
      omega

theorem visit_sound (chainTx : ∀ p, tree.AncestorOrSelf p search.pindexBestKnownBlock →
      tree.linked p = true → ¬ tree.Missing p)
    (blocks : List BlockPtr) (height : Nat) (climbs : search.Climbs tree height blocks)
    (plan : DownloadPlan) (opened : search.Open tree height plan) :
    (∃ visited, search.visit tree blocks plan = (visited, true) ∧ search.Sound tree visited) ∨
      ∃ visited, search.visit tree blocks plan = (visited, false) ∧
        search.Open tree (height + blocks.length) visited := by
  induction blocks generalizing height plan with
  | nil => exact Or.inr ⟨plan, rfl, opened⟩
  | cons p rest ih =>
      obtain ⟨older, level, further⟩ := climbs
      have onward (plan : DownloadPlan) (opened : search.Open tree (height + 1) plan) :
          (∃ visited, search.visit tree rest plan = (visited, true) ∧ search.Sound tree visited) ∨
            ∃ visited, search.visit tree rest plan = (visited, false) ∧
              search.Open tree (height + (p :: rest).length) visited := by
        have length : height + 1 + rest.length = height + (p :: rest).length := by
          rw [List.length_cons]
          omega
        have later := ih (height + 1) further plan opened
        rw [length] at later
        exact later
      have higher := opened.mono (Nat.le_succ height)
      unfold visit
      split
      next => exact Or.inl ⟨plan, rfl, opened.toSound⟩
      next =>
        split
        next =>
          split
          next linked => exact onward _ (higher.reach older (chainTx p older linked))
          next => exact onward plan higher
        next absent =>
          rw [Bool.not_eq_true] at absent
          split
          next notInFlight =>
            split
            next =>
              split
              next => exact Or.inl ⟨_, rfl, (opened.wait plan.waitingfor plan.waitingfor).toSound⟩
              next => exact Or.inl ⟨plan, rfl, opened.toSound⟩
            next inWindow =>
              have wanted : search.Wanted tree p :=
                ⟨older, absent, notInFlight, Nat.le_of_not_lt inWindow⟩
              obtain ⟨sound, behind⟩ := opened.push level wanted
              dsimp only
              split
              next => exact Or.inl ⟨_, rfl, sound⟩
              next more =>
                have size := sound.size
                exact onward _ ⟨sound, Nat.lt_of_le_of_ne size more, behind⟩
          next queued _ =>
            split
            next => exact onward _ (higher.wait queued.1 plan.nodeStaller)
            next => exact onward plan higher

theorem fillBack_climbs (search : DownloadSearch) (grown : tree.Grown) (n : Nat) (p : BlockPtr)
    (known : p ∈ tree.mapBlockIndex)
    (older : tree.AncestorOrSelf p search.pindexBestKnownBlock) (below : n ≤ tree.height p)
    (vToFetch : List BlockPtr) (climbs : search.Climbs tree (tree.height p) vToFetch) :
    ∃ filled, fillBack tree n (some p) vToFetch = some filled ∧
      filled.length = n + vToFetch.length ∧ search.Climbs tree (tree.height p - n) filled := by
  induction n generalizing p vToFetch with
  | zero => exact ⟨vToFetch, rfl, (Nat.zero_add _).symm, climbs⟩
  | succ n ih =>
      cases above : tree.pprev p with
      | none =>
          have bottom := grown.rooted p known above
          omega
      | some q =>
          obtain ⟨inside, level⟩ := grown.leveled p known q above
          have up := (Ancestry.AncestorOrSelf.step above
            (Ancestry.AncestorOrSelf.refl q)).trans older
          obtain ⟨filled, wrote, length, further⟩ := ih q inside up (by omega) (p :: vToFetch)
            ⟨older, level, by rw [← level]; exact climbs⟩
          refine ⟨filled, by rw [fillBack, above]; exact wrote, ?_, ?_⟩
          · rw [length, List.length_cons]
            omega
          · have lower : tree.height q - n = tree.height p - (n + 1) := by omega
            rw [← lower]
            exact further

theorem nToFetch_bounds (search : DownloadSearch) (height size : Nat) (below : height < search.nMaxHeight) :
    0 < search.nToFetch height size ∧ height + search.nToFetch height size ≤ search.nMaxHeight := by
  unfold nToFetch
  omega

theorem run_sound (search : DownloadSearch) (built : tree.Built)
    (known : search.pindexBestKnownBlock ∈ tree.mapBlockIndex)
    (reaches : search.nMaxHeight ≤ tree.height search.pindexBestKnownBlock)
    (chainTx : ∀ p, tree.AncestorOrSelf p search.pindexBestKnownBlock →
      tree.linked p = true → ¬ tree.Missing p)
    (fuel : Nat) (pindexWalk : BlockPtr) (plan : DownloadPlan)
    (opened : search.Open tree (tree.height pindexWalk) plan)
    (within : tree.height pindexWalk ≤ search.nMaxHeight)
    (enough : search.nMaxHeight < tree.height pindexWalk + fuel) :
    ∃ done, search.run tree fuel pindexWalk plan = some done ∧ search.Sound tree done := by
  induction fuel generalizing pindexWalk plan with
  | zero => omega
  | succ fuel ih =>
      unfold run
      split
      next => exact ⟨plan, rfl, opened.toSound⟩
      next below =>
        have bounds := search.nToFetch_bounds (tree.height pindexWalk) plan.vBlocks.length
          (Nat.lt_of_not_le below)
        generalize search.nToFetch (tree.height pindexWalk) plan.vBlocks.length = n at bounds
        obtain ⟨next, walked, older, level⟩ := built.getAncestor known
          (tree.height pindexWalk + n) (by omega)
        have inside := built.grown.leveled.known_ancestor known older
        obtain ⟨vToFetch, wrote, length, climbs⟩ := fillBack_climbs search built.grown n
          next inside older (by omega) [] trivial
        have from_here : tree.height next - n = tree.height pindexWalk := by omega
        rw [from_here] at climbs
        have cast : (tree.height pindexWalk : Int) + n = ((tree.height pindexWalk + n : Nat) : Int) :=
          (Nat.cast_add _ _).symm
        dsimp only
        rw [cast, walked]
        dsimp only
        rw [wrote]
        dsimp only
        rcases visit_sound chainTx vToFetch _ climbs plan opened with
          ⟨visited, ran, sound⟩ | ⟨visited, ran, later⟩
        · rw [ran]
          exact ⟨visited, rfl, sound⟩
        · rw [ran]
          rw [length, List.length_nil, Nat.add_zero, ← level] at later
          exact ih next visited later (by omega) (by omega)

end DownloadSearch

section finding

variable {tree : SkipTree} {chainActive : ChainVector}

theorem lastCommonStart_spec (ready : DownloadReady tree chainActive) (peer : PeerChain)
    (tracks : peer.Tracks tree.toBlockTree) (best : BlockPtr) (known : best ∈ tree.mapBlockIndex) :
    ∃ start, lastCommonStart tree chainActive peer best = some (some start) ∧
      tree.AncestorOrSelf start best ∧ ¬ tree.Missing start := by
  have guessed : ∃ guess, peer.pindexLastCommonBlock.or
      (chainActive.blockAt (min (tree.height best) chainActive.height)) = some guess ∧
      guess ∈ tree.mapBlockIndex ∧ ¬ tree.Missing guess := by
    cases last : peer.pindexLastCommonBlock with
    | some p => exact ⟨p, rfl, tracks.lastCommon p last, tracks.complete p last⟩
    | none =>
        obtain ⟨tip, ends, complete⟩ := ready.active
        obtain ⟨guess, older, level⟩ := ready.built.grown.leveled.exists_at_height
          ready.built.grown.rooted ends.known (min (tree.height best) (tree.height tip)) (by omega)
        have height : min (tree.height best : Int) chainActive.height =
            ((min (tree.height best) (tree.height tip) : Nat) : Int) := by
          have length := ends.fills.length
          unfold ChainVector.height
          omega
        rw [Option.none_or, height]
        exact ⟨guess, (ends.blockAt_iff ready.built.grown _ guess).mpr ⟨older, level⟩,
          ready.built.grown.leveled.known_ancestor ends.known older,
          BlockTree.not_missing_ancestor complete older⟩
  obtain ⟨guess, taken, inside, complete⟩ := guessed
  obtain ⟨start, met, common⟩ := ready.built.lastCommonAncestor ready.oneGenesis guess best inside
    known
  refine ⟨start, ?_, common.right, BlockTree.not_missing_ancestor complete common.left⟩
  unfold lastCommonStart
  rw [taken]
  exact met

def Idle (tree : SkipTree) (chainActive : ChainVector) (count : Nat) (peer : PeerChain) : Prop :=
  count = 0 ∨ ∀ best tip,
    (peer.processBlockAvailability tree.toBlockTree).pindexBestKnownBlock = some best →
      chainActive.tip = some tip → (tree.entry best).nChainWork < (tree.entry tip).nChainWork

structure Downloads (tree : SkipTree) (chainActive : ChainVector) (mapBlocksInFlight : InFlight)
    (count : Nat) (peer after : PeerChain) (vBlocks : List BlockPtr) : Prop where
  size : vBlocks.length ≤ count
  rising : vBlocks.Pairwise fun p q => tree.height p < tree.height q
  wanted : ∀ p ∈ vBlocks, ∃ best start, after.pindexBestKnownBlock = some best ∧
    lastCommonStart tree chainActive (peer.processBlockAvailability tree.toBlockTree) best =
      some (some start) ∧
    tree.AncestorOrSelf p best ∧ tree.haveData p = false ∧
    mapBlocksInFlight.lookup (tree.entry p).phashBlock = none ∧
    tree.height p ≤ tree.height start + BLOCK_DOWNLOAD_WINDOW
  tracks : after.Tracks tree.toBlockTree
  common : ¬ Idle tree chainActive count peer → ∃ best last,
    after.pindexBestKnownBlock = some best ∧ after.pindexLastCommonBlock = some last ∧
      tree.AncestorOrSelf last best ∧ ∀ a, tree.AncestorOrSelf a last → tree.haveData a = true
  idle : Idle tree chainActive count peer →
    vBlocks = [] ∧ after.pindexLastCommonBlock = peer.pindexLastCommonBlock

theorem Downloads.of_idle (mapBlocksInFlight : InFlight) {count : Nat} {peer after : PeerChain}
    (tracks : after.Tracks tree.toBlockTree)
    (same : after.pindexLastCommonBlock = peer.pindexLastCommonBlock)
    (idle : Idle tree chainActive count peer) :
    Downloads tree chainActive mapBlocksInFlight count peer after [] where
  size := Nat.zero_le count
  rising := List.Pairwise.nil
  wanted _ member := by cases member
  tracks := tracks
  common busy := absurd idle busy
  idle _ := ⟨rfl, same⟩

theorem Downloads.of_sound (ready : DownloadReady tree chainActive) {peer : PeerChain}
    (search : DownloadSearch) {start : BlockPtr} {plan : DownloadPlan}
    (processed : (peer.processBlockAvailability tree.toBlockTree).Tracks tree.toBlockTree)
    (known : (peer.processBlockAvailability tree.toBlockTree).pindexBestKnownBlock =
      some search.pindexBestKnownBlock)
    (found : lastCommonStart tree chainActive (peer.processBlockAvailability tree.toBlockTree)
      search.pindexBestKnownBlock = some (some start))
    (window : search.nWindowEnd = tree.height start + BLOCK_DOWNLOAD_WINDOW)
    (busy : ¬ Idle tree chainActive search.count peer) (sound : search.Sound tree plan) :
    Downloads tree chainActive search.mapBlocksInFlight search.count peer
      { peer.processBlockAvailability tree.toBlockTree with
        pindexLastCommonBlock := some plan.pindexLastCommonBlock } plan.vBlocks where
  size := sound.size
  rising := sound.rising
  wanted p member := by
    obtain ⟨older, absent, notInFlight, inWindow⟩ := sound.wanted p member
    rw [window] at inWindow
    exact ⟨_, start, known, found, older, absent, notInFlight, inWindow⟩
  tracks := by
    have inside := processed.bestKnown _ known
    refine ⟨processed.bestKnown, fun p last => ?_, fun p last => ?_⟩
    · cases last
      exact ready.built.grown.leveled.known_ancestor inside sound.common
    · cases last
      exact sound.complete
  common _ := by
    refine ⟨_, _, known, rfl, sound.common, fun a older => ?_⟩
    by_contra absent
    exact sound.complete ⟨a, older, Bool.eq_false_iff.mpr absent⟩
  idle nothing := absurd nothing busy

theorem findNextBlocksToDownload_idle (ready : DownloadReady tree chainActive)
    (mapBlocksInFlight : InFlight) (nodeid : NodeId) (count : Nat) (peer : PeerChain)
    (tracks : peer.Tracks tree.toBlockTree) (nodeStaller : NodeId)
    (idle : Idle tree chainActive count peer) :
    ∃ after, findNextBlocksToDownload tree chainActive mapBlocksInFlight nodeid count peer []
        nodeStaller = some (after, [], nodeStaller) ∧
      after.Tracks tree.toBlockTree ∧ after.pindexLastCommonBlock = peer.pindexLastCommonBlock := by
  have processed := tracks.process
  have kept := PeerChain.process_lastCommon tree.toBlockTree peer
  unfold findNextBlocksToDownload
  split
  next none_asked => exact ⟨peer, rfl, tracks, rfl⟩
  next some_asked =>
    dsimp only
    split
    next known => exact ⟨_, rfl, processed, kept⟩
    next best known =>
      obtain ⟨tip, ends, _⟩ := ready.active
      rw [ends.tip_eq]
      dsimp only
      split
      next worse => exact ⟨_, rfl, processed, kept⟩
      next as_good =>
        rcases idle with none_asked | worse
        · exact absurd none_asked some_asked
        · exact absurd (worse best tip known ends.tip_eq) as_good

theorem findNextBlocksToDownload_busy (ready : DownloadReady tree chainActive)
    (mapBlocksInFlight : InFlight) (nodeid : NodeId) (count : Nat) (peer : PeerChain)
    (tracks : peer.Tracks tree.toBlockTree) (nodeStaller : NodeId)
    (busy : ¬ Idle tree chainActive count peer) :
    ∃ after vBlocks staller,
      findNextBlocksToDownload tree chainActive mapBlocksInFlight nodeid count peer []
        nodeStaller = some (after, vBlocks, staller) ∧
      Downloads tree chainActive mapBlocksInFlight count peer after vBlocks := by
  have processed := tracks.process
  unfold findNextBlocksToDownload
  split
  next none_asked => exact absurd (Or.inl none_asked) busy
  next some_asked =>
    dsimp only
    split
    next known =>
      refine absurd (Or.inr ?_) busy
      intro best tip offered
      rw [known] at offered
      cases offered
    next best known =>
      have inside := processed.bestKnown best known
      obtain ⟨tip, ends, _⟩ := ready.active
      rw [ends.tip_eq]
      dsimp only
      split
      next worse =>
        refine absurd (Or.inr ?_) busy
        intro best' tip' offered active
        rw [known] at offered
        rw [ends.tip_eq] at active
        cases offered
        cases active
        exact worse
      next as_good =>
        obtain ⟨start, found, older, complete⟩ := lastCommonStart_spec ready _ processed best
          inside
        rw [found]
        dsimp only
        have below := ready.built.grown.leveled.height_le inside older
        let nWindowEnd := tree.height start + BLOCK_DOWNLOAD_WINDOW
        let search : DownloadSearch :=
          ⟨nodeid, count, best, nWindowEnd, min (tree.height best) (nWindowEnd + 1),
            mapBlocksInFlight⟩
        have opened : search.Open tree (tree.height start) ⟨[], start, -1, nodeStaller⟩ :=
          ⟨⟨Nat.zero_le count, List.Pairwise.nil, List.forall_mem_nil _, older, complete⟩,
            Nat.pos_of_ne_zero some_asked, List.forall_mem_nil _⟩
        split
        next =>
          exact ⟨_, [], nodeStaller, rfl, .of_sound ready search processed known found rfl
            busy opened.toSound⟩
        next =>
          have chainTx (p : BlockPtr) (ancestor : tree.AncestorOrSelf p best)
              (linked : tree.linked p = true) : ¬ tree.Missing p :=
            ready.chainTx p (ready.built.grown.leveled.known_ancestor inside ancestor) linked
          have within : tree.height start ≤ search.nMaxHeight := by
            show _ ≤ min (tree.height best) (tree.height start + BLOCK_DOWNLOAD_WINDOW + 1)
            omega
          obtain ⟨plan, ran, sound⟩ := search.run_sound ready.built inside
            (Nat.min_le_left _ _) chainTx (search.nMaxHeight + 1) start _ opened within
            (by omega)
          rw [ran]
          exact ⟨_, plan.vBlocks, plan.nodeStaller, rfl, .of_sound ready search processed
            known found rfl busy sound⟩

/-- FindNextBlocksToDownload ends with blocks that the peer has and nobody was asked for, inside
the window; where it looks for blocks at all, the last common block has all data below it. -/
theorem findNextBlocksToDownload_sound (tree : SkipTree) (chainActive : ChainVector)
    (ready : DownloadReady tree chainActive) (mapBlocksInFlight : InFlight) (nodeid : NodeId)
    (count : Nat) (peer : PeerChain) (tracks : peer.Tracks tree.toBlockTree)
    (nodeStaller : NodeId) :
    ∃ after vBlocks staller,
      findNextBlocksToDownload tree chainActive mapBlocksInFlight nodeid count peer []
        nodeStaller = some (after, vBlocks, staller) ∧
      Downloads tree chainActive mapBlocksInFlight count peer after vBlocks := by
  by_cases idle : Idle tree chainActive count peer
  · obtain ⟨after, ran, tracked, same⟩ := findNextBlocksToDownload_idle ready mapBlocksInFlight
      nodeid count peer tracks nodeStaller idle
    exact ⟨after, [], nodeStaller, ran, .of_idle _ tracked same idle⟩
  · exact findNextBlocksToDownload_busy ready mapBlocksInFlight nodeid count peer tracks
      nodeStaller idle

theorem findNextBlocksToDownload_tracks (ready : DownloadReady tree chainActive)
    {mapBlocksInFlight : InFlight} {nodeid nodeStaller staller : NodeId} {count : Nat}
    {peer after : PeerChain} {vBlocks : List BlockPtr} (tracks : peer.Tracks tree.toBlockTree)
    (asked : findNextBlocksToDownload tree chainActive mapBlocksInFlight nodeid count peer []
      nodeStaller = some (after, vBlocks, staller)) : after.Tracks tree.toBlockTree := by
  by_cases idle : Idle tree chainActive count peer
  · obtain ⟨_, ran, tracked, _⟩ := findNextBlocksToDownload_idle ready mapBlocksInFlight
      nodeid count peer tracks nodeStaller idle
    rw [asked] at ran
    cases ran
    exact tracked
  · obtain ⟨_, _, _, ran, downloads⟩ := findNextBlocksToDownload_busy ready mapBlocksInFlight
      nodeid count peer tracks nodeStaller idle
    rw [asked] at ran
    cases ran
    exact downloads.tracks

end finding

inductive PeerChain.Reached : SkipTree → PeerChain → Prop
  | initial (tree : SkipTree) : Reached tree .initial
  | announced {tree : SkipTree} {peer : PeerChain} (hash : Uint256) (before : Reached tree peer) :
      Reached tree (peer.updateBlockAvailability tree.toBlockTree hash)
  | planned {tree : SkipTree} {peer after : PeerChain} {chainActive : ChainVector}
      {mapBlocksInFlight : InFlight} {nodeid nodeStaller staller : NodeId} {count : Nat}
      {vBlocks : List BlockPtr} (before : Reached tree peer)
      (ready : DownloadReady tree chainActive)
      (asked : findNextBlocksToDownload tree chainActive mapBlocksInFlight nodeid count peer []
        nodeStaller = some (after, vBlocks, staller)) :
      Reached tree after
  | extended {tree next : SkipTree} {peer : PeerChain} (before : Reached tree peer)
      (grown : tree.Grown) (further : Extends tree.toBlockTree next.toBlockTree) :
      Reached next peer

theorem PeerChain.Reached.tracks {tree : SkipTree} {peer : PeerChain}
    (reached : peer.Reached tree) : peer.Tracks tree.toBlockTree := by
  induction reached with
  | initial tree => exact initial_tracks tree.toBlockTree
  | announced hash _ ih => exact ih.update hash
  | planned _ ready asked ih => exact findNextBlocksToDownload_tracks ready ih asked
  | extended _ grown further ih => exact ih.extends grown further

theorem forkTree_complete (p : BlockPtr) (known : p ∈ forkTree.mapBlockIndex)
    (linked : forkTree.linked p = true) : ¬ forkTree.Missing p := by
  rintro ⟨a, older, absent⟩
  rw [forkTree_older a p known] at older
  have stored : ∀ p ∈ forkTree.mapBlockIndex, forkTree.linked p = true →
      ∀ a ∈ forkTree.ancestry p, forkTree.haveData a = true := by decide
  rw [stored p known linked a older] at absent
  cases absent

def forkChain (tip : BlockPtr) : ChainVector :=
  ChainVector.setTip forkTree.toBlockTree ⟨[]⟩ (some tip)

theorem forkTree_ready (tip : BlockPtr) (known : tip ∈ forkTree.mapBlockIndex)
    (linked : forkTree.linked tip = true) : DownloadReady forkTree (forkChain tip) where
  built := forkTree_built
  oneGenesis := forkTree_oneGenesis
  chainTx := forkTree_complete
  active := ⟨tip, ChainVector.setTip_endsAt forkTree_grown (Or.inl rfl) tip known,
    forkTree_complete tip known linked⟩

theorem forkTree_tracks : PeerChain.Tracks forkTree.toBlockTree ⟨some 3, 0, none⟩ where
  bestKnown _ known := by
    cases known
    decide
  lastCommon _ known := by cases known
  complete _ known := by cases known

theorem findNextBlocksToDownload_sound_fork :
    ∃ after vBlocks staller,
      findNextBlocksToDownload forkTree (forkChain 2) ∅ 7 16 ⟨some 3, 0, none⟩ [] (-1) =
        some (after, vBlocks, staller) ∧
      Downloads forkTree (forkChain 2) ∅ 16 ⟨some 3, 0, none⟩ after vBlocks :=
  findNextBlocksToDownload_sound forkTree (forkChain 2) (forkTree_ready 2 (by decide) (by decide))
    ∅ 7 16 ⟨some 3, 0, none⟩ forkTree_tracks (-1)

example : findNextBlocksToDownload forkTree (forkChain 2) ∅ 7 16 ⟨some 3, 0, none⟩ [] (-1) =
    some (⟨some 3, 0, some 2⟩, [3], -1) := by decide

-- The peer announced block 1 first and block 4 later.
theorem forkTree_reached : PeerChain.Reached forkTree ⟨some 4, 0, some 1⟩ := by
  have first := (PeerChain.Reached.initial forkTree).announced 11
  have asked : findNextBlocksToDownload forkTree (forkChain 1) ∅ 7 16 ⟨some 1, 0, none⟩ [] (-1) =
      some (⟨some 1, 0, some 1⟩, [], -1) := by decide
  have planned := PeerChain.Reached.planned first (forkTree_ready 1 (by decide) (by decide)) asked
  exact planned.announced 14

/-- A peer that moved to a branch with less work than the active chain is left alone, with the last
common block of its old branch. -/
theorem findNextBlocksToDownload_stale :
    PeerChain.Reached forkTree ⟨some 4, 0, some 1⟩ ∧
      DownloadReady forkTree (forkChain 2) ∧
      findNextBlocksToDownload forkTree (forkChain 2) ∅ 7 16 ⟨some 4, 0, some 1⟩ [] (-1) =
        some (⟨some 4, 0, some 1⟩, [], -1) ∧
      ¬ forkTree.AncestorOrSelf 1 4 := by
  refine ⟨forkTree_reached, forkTree_ready 2 (by decide) (by decide), by decide, ?_⟩
  rw [forkTree_older 1 4 (by decide)]
  decide

end CryptoYen
