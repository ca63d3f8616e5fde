import CryptoYen.Index.Ancestor

set_option autoImplicit false

namespace CryptoYen

/-- CChain's vector: the blocks of a chain by their heights; SetTip leaves no entry null. -/
structure ChainVector where
  vChain : List (Option BlockPtr)
  deriving DecidableEq

namespace ChainVector

variable (tree : BlockTree) (chain : ChainVector)

def genesis : Option BlockPtr := chain.vChain.head?.join

def tip : Option BlockPtr := chain.vChain.getLast?.join

def height : Int := (chain.vChain.length : Int) - 1

def blockAt (nHeight : Int) : Option BlockPtr :=
  if nHeight < 0 ∨ (chain.vChain.length : Int) ≤ nHeight then none
  else chain.vChain[nHeight.toNat]?.join

def contains (p : BlockPtr) : Bool := chain.blockAt (tree.height p) == some p

def resize (size : Nat) (vChain : List (Option BlockPtr)) : List (Option BlockPtr) :=
  vChain.take size ++ List.replicate (size - vChain.length) none

def setBlocks : Nat → Option BlockPtr → List (Option BlockPtr) → List (Option BlockPtr)
  | 0, _, vChain => vChain
  | _ + 1, none, vChain => vChain
  | fuel + 1, some pindex, vChain =>
      if vChain[tree.height pindex]?.join = some pindex then vChain
      else
        setBlocks fuel (tree.pprev pindex) (vChain.set (tree.height pindex) (some pindex))

def setTip : Option BlockPtr → ChainVector
  | none => ⟨[]⟩
  | some pindex =>
      ⟨setBlocks tree (tree.height pindex + 1) (some pindex)
        (resize (tree.height pindex + 1) chain.vChain)⟩

structure Fills (p : BlockPtr) (vChain : List (Option BlockPtr)) : Prop where
  length : vChain.length = tree.height p + 1
  placed : ∀ a, tree.AncestorOrSelf a p → vChain[tree.height a]? = some (some a)

structure EndsAt (p : BlockPtr) : Prop where
  known : p ∈ tree.mapBlockIndex
  fills : Fills tree p chain.vChain

def Coherent : Prop := chain.vChain = [] ∨ ∃ p, chain.EndsAt tree p

variable {tree} {chain}

theorem blockAt_natCast (height : Nat) : chain.blockAt height = chain.vChain[height]?.join := by
  unfold ChainVector.blockAt
  split
  next outside =>
    have beyond : chain.vChain.length ≤ height := by omega
    rw [List.getElem?_eq_none beyond]
    rfl
  next => rw [Int.toNat_natCast]

namespace EndsAt

variable {p : BlockPtr}

theorem blockAt_iff (ends : chain.EndsAt tree p) (grown : tree.Grown) (height : Nat) (x : BlockPtr) :
    chain.blockAt height = some x ↔ tree.AncestorOrSelf x p ∧ tree.height x = height := by
  rw [blockAt_natCast]
  constructor
  · intro found
    have below : height ≤ tree.height p := by
      by_contra above
      have length := ends.fills.length
      rw [List.getElem?_eq_none (by omega)] at found
      cases found
    obtain ⟨a, older, rfl⟩ := grown.leveled.exists_at_height grown.rooted ends.known height below
    rw [ends.fills.placed a older] at found
    cases found
    exact ⟨older, rfl⟩
  · rintro ⟨older, rfl⟩
    rw [ends.fills.placed x older]
    rfl

theorem contains_iff (ends : chain.EndsAt tree p) (grown : tree.Grown) (x : BlockPtr) :
    chain.contains tree x = true ↔ tree.AncestorOrSelf x p := by
  rw [contains, beq_iff_eq, ends.blockAt_iff grown]
  exact and_iff_left rfl

theorem tip_eq (ends : chain.EndsAt tree p) : chain.tip = some p := by
  have last := ends.fills.placed p (Ancestry.AncestorOrSelf.refl p)
  rw [tip, List.getLast?_eq_getElem?, ends.fills.length, Nat.add_sub_cancel, last]
  rfl

theorem genesis_iff (ends : chain.EndsAt tree p) (grown : tree.Grown) (g : BlockPtr) :
    chain.genesis = some g ↔ tree.AncestorOrSelf g p ∧ tree.height g = 0 := by
  rw [← ends.blockAt_iff grown 0 g, blockAt_natCast, genesis, List.head?_eq_getElem?]

end EndsAt

theorem Coherent.contains_iff (coherent : chain.Coherent tree) (grown : tree.Grown)
    (x : BlockPtr) :
    chain.contains tree x = true ↔ ∃ p, chain.EndsAt tree p ∧ tree.AncestorOrSelf x p := by
  constructor
  · intro inside
    rcases coherent with empty | ⟨p, ends⟩
    · rw [contains, blockAt_natCast, empty] at inside
      cases inside
    · exact ⟨p, ends, (ends.contains_iff grown x).mp inside⟩
  · rintro ⟨p, ends, older⟩
    exact (ends.contains_iff grown x).mpr older

theorem resize_length (size : Nat) (vChain : List (Option BlockPtr)) :
    (resize size vChain).length = size := by
  simp only [resize, List.length_append, List.length_take, List.length_replicate]
  omega

theorem resize_placed (size i : Nat) (vChain : List (Option BlockPtr)) (x : BlockPtr) :
    (resize size vChain)[i]? = some (some x) ↔ i < size ∧ vChain[i]? = some (some x) := by
  rw [resize, List.getElem?_append]
  split
  next inside =>
    rw [List.length_take] at inside
    rw [List.getElem?_take_of_lt (by omega)]
    exact (and_iff_right (by omega)).symm
  next outside =>
    rw [List.length_take] at outside
    constructor
    · intro padding
      have padded := List.mem_of_getElem? padding
      rw [List.mem_replicate] at padded
      cases padded.2
    · rintro ⟨inside, found⟩
      obtain ⟨bound, _⟩ := List.getElem?_eq_some_iff.mp found
      omega

/-- SetTip's loop from `q` on: what lies above `q` is written, what lies below is from the chain
of before, and where a block stands in it its ancestors stand too. -/
structure Rewrites (tree : BlockTree) (p q : BlockPtr) (vChain : List (Option BlockPtr)) :
    Prop where
  length : vChain.length = tree.height p + 1
  onPath : tree.AncestorOrSelf q p
  above : ∀ a, tree.AncestorOrSelf a p → tree.height q < tree.height a →
    vChain[tree.height a]? = some (some a)
  before : ∀ a ∈ tree.mapBlockIndex, tree.height a ≤ tree.height q →
    vChain[tree.height a]? = some (some a) →
    ∀ b, tree.AncestorOrSelf b a → vChain[tree.height b]? = some (some b)

theorem setBlocks_fills (grown : tree.Grown) (fuel : Nat) (p q : BlockPtr)
    (vChain : List (Option BlockPtr)) (known : p ∈ tree.mapBlockIndex)
    (rewrites : Rewrites tree p q vChain) (enough : tree.height q < fuel) :
    Fills tree p (setBlocks tree fuel (some q) vChain) := by
  induction fuel generalizing q vChain with
  | zero => omega
  | succ fuel ih =>
      obtain ⟨length, onPath, above, before⟩ := rewrites
      have inside := grown.leveled.known_ancestor known onPath
      have bounded := grown.leveled.height_le known onPath
      -- an ancestor is written already or it is an ancestor of q
      have split (a : BlockPtr) (older : tree.AncestorOrSelf a p) :
          tree.height q < tree.height a ∨ tree.AncestorOrSelf a q := by
        rcases Nat.lt_or_ge (tree.height q) (tree.height a) with higher | lower
        · exact Or.inl higher
        · exact Or.inr (grown.leveled.older_of_le known older onPath lower)
      unfold setBlocks
      split
      next there =>
        have placed : vChain[tree.height q]? = some (some q) := Option.join_eq_some_iff.mp there
        refine ⟨length, fun a older => ?_⟩
        rcases split a older with higher | below
        · exact above a older higher
        · exact before q inside (Nat.le_refl _) placed a below
      next =>
        have written : (vChain.set (tree.height q) (some q))[tree.height q]? = some (some q) := by
          rw [List.getElem?_set_self (by omega)]
        have kept (i : Nat) (apart : tree.height q ≠ i) :
            (vChain.set (tree.height q) (some q))[i]? = vChain[i]? :=
          List.getElem?_set_ne apart
        have reached (a : BlockPtr) (older : tree.AncestorOrSelf a p)
            (level : tree.height q ≤ tree.height a) :
            (vChain.set (tree.height q) (some q))[tree.height a]? = some (some a) := by
          by_cases same : tree.height q = tree.height a
          · rw [← grown.leveled.same_height known onPath older same]
            exact written
          · rw [kept _ same]
            exact above a older (by omega)
        cases up : tree.pprev q with
        | none =>
            have bottom := grown.rooted q inside up
            have done : setBlocks tree fuel none (vChain.set (tree.height q) (some q)) =
                vChain.set (tree.height q) (some q) := by
              cases fuel <;> rfl
            rw [done]
            exact ⟨by rw [List.length_set, length], fun a older => reached a older (by omega)⟩
        | some r =>
            have level := (grown.leveled q inside r up).2
            apply ih r
            · refine ⟨by rw [List.length_set, length], ?_, ?_, ?_⟩
              · exact (Ancestry.AncestorOrSelf.step up (Ancestry.AncestorOrSelf.refl r)).trans
                  onPath
              · exact fun a older higher => reached a older (by omega)
              · intro a other lower placed b older
                have deeper := grown.leveled.height_le other older
                rw [kept _ (by omega)] at placed ⊢
                exact before a other (by omega) placed b older
            · omega

theorem setTip_endsAt (grown : tree.Grown) (coherent : chain.Coherent tree) (p : BlockPtr)
    (known : p ∈ tree.mapBlockIndex) : (chain.setTip tree (some p)).EndsAt tree p := by
  refine ⟨known, setBlocks_fills grown _ p p _ known ?_ (Nat.lt_succ_self _)⟩
  refine ⟨resize_length _ _, Ancestry.AncestorOrSelf.refl p, fun a older higher => ?_,
    fun a other lower placed b older => ?_⟩
  · have bounded := grown.leveled.height_le known older
    omega
  · rw [resize_placed] at placed ⊢
    have deeper := grown.leveled.height_le other older
    rcases coherent with empty | ⟨o, ends⟩
    · rw [empty] at placed
      cases placed.2
    · have found := (ends.blockAt_iff grown (tree.height a) a).mp (by rw [blockAt_natCast, placed.2]; rfl)
      exact ⟨by omega, ends.fills.placed b (older.trans found.1)⟩

theorem setTip_coherent (grown : tree.Grown) (coherent : chain.Coherent tree)
    (pindex : Option BlockPtr) (known : ∀ p, pindex = some p → p ∈ tree.mapBlockIndex) :
    (chain.setTip tree pindex).Coherent tree := by
  cases pindex with
  | none => exact Or.inl rfl
  | some p => exact Or.inr ⟨p, setTip_endsAt grown coherent p (known p rfl)⟩

end ChainVector

end CryptoYen
