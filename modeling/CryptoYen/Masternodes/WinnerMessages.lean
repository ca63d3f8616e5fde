import CryptoYen.Masternodes.Winners

set_option autoImplicit false

namespace CryptoYen

structure KnownMasternode where
  protocolVersion : Int
  pubKeyMasternode : List UInt8

structure WinnerContext extends PaymentsContext where
  fBlockchainSynced : Bool
  fSynced : Bool
  fLiteMode : Bool
  nPeerVersion : Int
  activeProtocol : Int
  -- the level of the masternode that a script pays
  findPayee : CScript → Option Nat
  countEnabled : Nat → Nat
  findMasternode : COutPoint → Option KnownMasternode
  getMasternodeRank : COutPoint → Int → Int
  -- whether a key has signed the outpoint, the height and the payee
  verifyMessage : List UInt8 → List UInt8 → COutPoint → Int → CScript → Bool

inductive WinnerEvent
  | misbehaving (howmuch : Nat)
  | askForMN (vin : CTxIn)
  | addedMasternodeWinner (hash : Uint256)
  | relay (hash : Uint256)
  deriving DecidableEq, Repr

-- The payments and mapMasternodesLastVote, which nothing else reads or clears.
structure WinnerNode where
  payments : CMasternodePayments
  mapMasternodesLastVote : AList fun _ : Uint256 => Int

namespace WinnerNode

def voteKey (outMasternode : COutPoint) (mnlevel : Nat) : Uint256 :=
  outMasternode.hash + BitVec.ofNat 256 outMasternode.n + BitVec.ofNat 256 mnlevel

/-- CanVote tests and records in one: only a vote for a lower height than the last is let through. -/
def canVote (node : WinnerNode) (outMasternode : COutPoint) (nBlockHeight : Int) (mnlevel : Nat) :
    WinnerNode × Bool :=
  let key := voteKey outMasternode mnlevel
  let voted : WinnerNode :=
    { node with
      mapMasternodesLastVote := node.mapMasternodesLastVote.insert key nBlockHeight }
  match node.mapMasternodesLastVote.lookup key with
  | none => (voted, true)
  | some last_vote => if last_vote ≤ nBlockHeight then (node, false) else (voted, true)

end WinnerNode

namespace WinnerContext

variable (ctx : WinnerContext)

-- int nFirstBlock = nHeight - (CountEnabled(level) * 1.25), rounded towards zero
def nFirstBlock (nHeight : Int) (mnlevel : Nat) : Int :=
  (4 * nHeight - 5 * (ctx.countEnabled mnlevel : Int)).tdiv 4

def outOfRange (nHeight : Int) (winner : CMasternodePaymentWinner) (mnlevel : Nat) : Bool :=
  winner.nBlockHeight < ctx.nFirstBlock nHeight mnlevel || nHeight + 20 < winner.nBlockHeight

-- CMasternodePaymentWinner::IsValid; a rank that is far off counts as misbehaviour.
def isValid (winner : CMasternodePaymentWinner) : Bool × List WinnerEvent :=
  match ctx.findMasternode winner.vinMasternode.prevout with
  | none => (false, [.askForMN winner.vinMasternode])
  | some pmn =>
      if pmn.protocolVersion < ctx.activeProtocol then (false, [])
      else
        let n := ctx.getMasternodeRank winner.vinMasternode.prevout (winner.nBlockHeight - 100)
        if n = -1 then (false, [])
        else if MNPAYMENTS_SIGNATURES_TOTAL < n then
          (false,
            if MNPAYMENTS_SIGNATURES_TOTAL * 2 < n ∧ ctx.fSynced = true then [.misbehaving 20]
            else [])
        else (true, [])

def signatureValid (winner : CMasternodePaymentWinner) : Bool :=
  match ctx.findMasternode winner.vinMasternode.prevout with
  | none => false
  | some pmn =>
      ctx.verifyMessage pmn.pubKeyMasternode winner.vchSig winner.vinMasternode.prevout
        winner.nBlockHeight winner.payee

variable [WinnerHasher]

def addSigned (node : WinnerNode) (winner : CMasternodePaymentWinner) :
    WinnerNode × List WinnerEvent :=
  if ctx.signatureValid winner then
    let (payments, added) := node.payments.addWinningMasternode ctx.toPaymentsContext winner
    ({ node with payments := payments },
      if added then [.relay winner.getHash, .addedMasternodeWinner winner.getHash] else [])
  else
    (node, (if ctx.fSynced then [.misbehaving 20] else []) ++ [.askForMN winner.vinMasternode])

def considerWinner (node : WinnerNode) (nHeight : Int) (winner : CMasternodePaymentWinner) :
    WinnerNode × List WinnerEvent :=
  if (node.payments.mapMasternodePayeeVotes.lookup winner.getHash).isSome then
    (node, [.addedMasternodeWinner winner.getHash])
  else if ctx.outOfRange nHeight winner winner.payeeLevel then (node, [])
  else
    let (valid, events) := ctx.isValid winner
    if !valid then (node, events)
    else
      let (voted, allowed) :=
        node.canVote winner.vinMasternode.prevout winner.nBlockHeight winner.payeeLevel
      if allowed then ctx.addSigned voted winner else (voted, [])

def processWinner (node : WinnerNode) (received : CMasternodePaymentWinner) :
    WinnerNode × List WinnerEvent :=
  if !ctx.fBlockchainSynced || ctx.fLiteMode || ctx.nPeerVersion < ctx.activeProtocol then (node, [])
  else
    match ctx.nTipHeight, ctx.findPayee received.payee with
    | some nHeight, some mnlevel =>
        ctx.considerWinner node nHeight { received with payeeLevel := mnlevel }
    | _, _ => (node, [])

end WinnerContext

abbrev WinnerMessage := WinnerContext × CMasternodePaymentWinner

def WinnerNode.run [WinnerHasher] (node : WinnerNode) (messages : List WinnerMessage) : WinnerNode :=
  messages.foldl (fun node message => (message.1.processWinner node message.2).1) node

namespace WinnerNode

theorem canVote_refused (node : WinnerNode) (outMasternode : COutPoint) (nBlockHeight : Int)
    (mnlevel : Nat) (refused : (node.canVote outMasternode nBlockHeight mnlevel).2 = false) :
    (node.canVote outMasternode nBlockHeight mnlevel).1 = node := by
  simp only [canVote] at refused ⊢
  split at refused
  next => cases refused
  next last known =>
    split at refused
    next late => simp [late]
    next => cases refused

theorem canVote_allowed (node : WinnerNode) (outMasternode : COutPoint) (nBlockHeight : Int)
    (mnlevel : Nat) :
    (node.canVote outMasternode nBlockHeight mnlevel).2 = true ↔
      ∀ last, node.mapMasternodesLastVote.lookup (voteKey outMasternode mnlevel) = some last →
        nBlockHeight < last := by
  simp only [canVote]
  split
  next unknown => simp [unknown]
  next last known =>
    simp only [known, Option.some.injEq, forall_eq']
    split
    next late => simpa using late
    next early => simpa using early

theorem canVote_recorded (node : WinnerNode) (outMasternode : COutPoint) (nBlockHeight : Int)
    (mnlevel : Nat) (allowed : (node.canVote outMasternode nBlockHeight mnlevel).2 = true) :
    (node.canVote outMasternode nBlockHeight mnlevel).1 =
      { node with
        mapMasternodesLastVote :=
          node.mapMasternodesLastVote.insert (voteKey outMasternode mnlevel) nBlockHeight } := by
  simp only [canVote] at allowed ⊢
  split at allowed
  next => rfl
  next last known =>
    split at allowed
    next => cases allowed
    next early => simp [early]

def Voted (node : WinnerNode) (key : Uint256) (nBlockHeight : Int) : Prop :=
  ∃ last, node.mapMasternodesLastVote.lookup key = some last ∧ last ≤ nBlockHeight

theorem Voted.canVote {node : WinnerNode} {key : Uint256} {nBlockHeight : Int}
    (voted : node.Voted key nBlockHeight) (outMasternode : COutPoint) (height : Int)
    (mnlevel : Nat) : (node.canVote outMasternode height mnlevel).1.Voted key nBlockHeight := by
  cases allowed : (node.canVote outMasternode height mnlevel).2 with
  | false => rwa [node.canVote_refused _ _ _ allowed]
  | true =>
      obtain ⟨last, known, low⟩ := voted
      rw [node.canVote_recorded _ _ _ allowed, Voted]
      by_cases same : key = voteKey outMasternode mnlevel
      · subst same
        have lower := (node.canVote_allowed _ _ _).mp allowed last known
        exact ⟨height, by simp, by omega⟩
      · exact ⟨last, by simpa [Assoc.lookup_insert, same] using known, low⟩

end WinnerNode

namespace WinnerContext

open WinnerNode

variable [WinnerHasher] (ctx : WinnerContext) (node : WinnerNode)
  (received : CMasternodePaymentWinner)

def passes (nHeight : Int) (winner : CMasternodePaymentWinner) : Bool :=
  (node.payments.mapMasternodePayeeVotes.lookup winner.getHash).isNone &&
    !ctx.outOfRange nHeight winner winner.payeeLevel && (ctx.isValid winner).1

def considered : Option CMasternodePaymentWinner :=
  if !ctx.fBlockchainSynced || ctx.fLiteMode || ctx.nPeerVersion < ctx.activeProtocol then none
  else
    match ctx.nTipHeight, ctx.findPayee received.payee with
    | some nHeight, some mnlevel =>
        if ctx.passes node nHeight { received with payeeLevel := mnlevel } then
          some { received with payeeLevel := mnlevel }
        else none
    | _, _ => none

def Records : Prop :=
  ∃ winner, ctx.considered node received = some winner ∧
    (node.canVote winner.vinMasternode.prevout winner.nBlockHeight winner.payeeLevel).2 = true

def Relays (events : List WinnerEvent) : Prop := ∃ hash, .relay hash ∈ events

omit [WinnerHasher] in
theorem isValid_quiet (winner : CMasternodePaymentWinner) : ¬ Relays (ctx.isValid winner).2 := by
  rintro ⟨hash, member⟩
  simp only [isValid] at member
  split at member
  next => simp at member
  next =>
    split at member
    next => simp at member
    next =>
      split at member
      next => simp at member
      next =>
        split at member
        next => split at member <;> simp at member
        next => simp at member

theorem considerWinner_dropped (nHeight : Int) (winner : CMasternodePaymentWinner)
    (dropped : ctx.passes node nHeight winner = false) :
    (ctx.considerWinner node nHeight winner).1 = node ∧
      ¬ Relays (ctx.considerWinner node nHeight winner).2 := by
  simp only [considerWinner]
  split
  next => simp [Relays]
  next fresh =>
    split
    next => simp [Relays]
    next inRange =>
      have absent : node.payments.mapMasternodePayeeVotes.lookup winner.getHash = none := by
        simpa using fresh
      have invalid : (ctx.isValid winner).1 = false := by
        simpa [passes, absent, inRange] using dropped
      simp only [invalid, Bool.not_false, ↓reduceIte, true_and]
      exact ctx.isValid_quiet winner

theorem considerWinner_passed (nHeight : Int) (winner : CMasternodePaymentWinner)
    (passed : ctx.passes node nHeight winner = true) :
    ctx.considerWinner node nHeight winner =
      let (voted, allowed) :=
        node.canVote winner.vinMasternode.prevout winner.nBlockHeight winner.payeeLevel
      if allowed then ctx.addSigned voted winner else (voted, []) := by
  simp only [passes, Bool.and_eq_true, Option.isNone_iff_eq_none, Bool.not_eq_true'] at passed
  obtain ⟨⟨fresh, inRange⟩, valid⟩ := passed
  simp [considerWinner, fresh, inRange, valid]

theorem processWinner_dropped (dropped : ctx.considered node received = none) :
    (ctx.processWinner node received).1 = node ∧ ¬ Relays (ctx.processWinner node received).2 := by
  simp only [considered] at dropped
  simp only [processWinner]
  split at dropped
  next disabled => simp [disabled, Relays]
  next enabled =>
    simp only [enabled, Bool.false_eq_true, ↓reduceIte]
    split at dropped
    next nHeight mnlevel tip level =>
      split at dropped
      next => cases dropped
      next failed =>
        exact ctx.considerWinner_dropped node nHeight _ (Bool.not_eq_true _ ▸ failed)
    next => simp [Relays]

theorem considered_some (winner : CMasternodePaymentWinner)
    (gets : ctx.considered node received = some winner) :
    ∃ nHeight mnlevel, ctx.findPayee received.payee = some mnlevel ∧
      winner = { received with payeeLevel := mnlevel } ∧ ctx.passes node nHeight winner = true ∧
      ctx.processWinner node received = ctx.considerWinner node nHeight winner := by
  simp only [considered] at gets
  split at gets
  next => cases gets
  next enabled =>
    split at gets
    next nHeight mnlevel tip level =>
      split at gets
      next passed =>
        cases gets
        refine ⟨nHeight, mnlevel, level, rfl, passed, ?_⟩
        simp [processWinner, enabled, tip, level]
      next => cases gets
    next => cases gets

theorem processWinner_considered (winner : CMasternodePaymentWinner)
    (gets : ctx.considered node received = some winner) :
    ctx.processWinner node received =
      let (voted, allowed) :=
        node.canVote winner.vinMasternode.prevout winner.nBlockHeight winner.payeeLevel
      if allowed then ctx.addSigned voted winner else (voted, []) := by
  obtain ⟨nHeight, mnlevel, _, _, passed, processed⟩ := ctx.considered_some node received winner gets
  rw [processed, ctx.considerWinner_passed node nHeight winner passed]

theorem addSigned_lastVote (winner : CMasternodePaymentWinner) :
    (ctx.addSigned node winner).1.mapMasternodesLastVote = node.mapMasternodesLastVote := by
  simp only [addSigned]
  split <;> rfl

theorem processWinner_unrecorded (unrecorded : ¬ ctx.Records node received) :
    (ctx.processWinner node received).1 = node ∧ ¬ Relays (ctx.processWinner node received).2 := by
  cases gets : ctx.considered node received with
  | none => exact ctx.processWinner_dropped node received gets
  | some winner =>
      have refused : (node.canVote winner.vinMasternode.prevout winner.nBlockHeight
          winner.payeeLevel).2 = false :=
        Bool.not_eq_true _ ▸ fun allowed => unrecorded ⟨winner, gets, allowed⟩
      rw [ctx.processWinner_considered node received winner gets]
      simp only [refused, Bool.false_eq_true, ↓reduceIte]
      exact ⟨node.canVote_refused _ _ _ refused, by simp [Relays]⟩

theorem processWinner_lastVote (mnlevel : Nat) (level : ctx.findPayee received.payee = some mnlevel)
    (records : ctx.Records node received) :
    (ctx.processWinner node received).1.mapMasternodesLastVote =
      node.mapMasternodesLastVote.insert (voteKey received.vinMasternode.prevout mnlevel)
        received.nBlockHeight := by
  obtain ⟨winner, gets, allowed⟩ := records
  obtain ⟨_, mnlevel', level', same, _, _⟩ := ctx.considered_some node received winner gets
  rw [level] at level'
  cases level'
  subst same
  rw [ctx.processWinner_considered node received _ gets]
  simp only [allowed, ↓reduceIte, ctx.addSigned_lastVote, node.canVote_recorded _ _ _ allowed]

theorem processWinner_voted (key : Uint256) (nBlockHeight : Int)
    (voted : node.Voted key nBlockHeight) :
    (ctx.processWinner node received).1.Voted key nBlockHeight := by
  cases gets : ctx.considered node received with
  | none => rwa [(ctx.processWinner_dropped node received gets).1]
  | some winner =>
      have later := voted.canVote winner.vinMasternode.prevout winner.nBlockHeight winner.payeeLevel
      rw [ctx.processWinner_considered node received winner gets]
      simp only
      split
      next => simpa only [Voted, ctx.addSigned_lastVote] using later
      next => exact later

theorem passes_known (nHeight : Int) (winner : CMasternodePaymentWinner)
    (passed : ctx.passes node nHeight winner = true) :
    (ctx.findMasternode winner.vinMasternode.prevout).isSome = true := by
  simp only [passes, Bool.and_eq_true] at passed
  have valid := passed.2
  simp only [isValid] at valid
  split at valid
  next => cases valid
  next pmn known => simp [known]

def Accepts : Prop := Relays (ctx.processWinner node received).2

theorem not_accepts_voted (mnlevel : Nat) (level : ctx.findPayee received.payee = some mnlevel)
    (voted : node.Voted (voteKey received.vinMasternode.prevout mnlevel) received.nBlockHeight) :
    ¬ ctx.Accepts node received := by
  refine (ctx.processWinner_unrecorded node received ?_).2
  rintro ⟨winner, gets, allowed⟩
  obtain ⟨_, mnlevel', level', same, _, _⟩ := ctx.considered_some node received winner gets
  rw [level] at level'
  cases level'
  subst same
  obtain ⟨last, known, low⟩ := voted
  have lower := (node.canVote_allowed _ _ _).mp allowed last known
  exact absurd low (not_le.mpr lower)

end WinnerContext

namespace WinnerNode

open WinnerContext

variable [WinnerHasher] (node : WinnerNode)

theorem run_voted (messages : List WinnerMessage) (key : Uint256) (nBlockHeight : Int)
    (voted : node.Voted key nBlockHeight) : (node.run messages).Voted key nBlockHeight := by
  induction messages generalizing node with
  | nil => exact voted
  | cons message rest ih =>
      exact ih _ (message.1.processWinner_voted node message.2 key nBlockHeight voted)

/-- No later winner of the masternode for the same height and level that is correctly signed is
refused because of the forged one. -/
def Harmless (ctx : WinnerContext) (forged : CMasternodePaymentWinner) : Prop :=
  ∀ messages (ctx' : WinnerContext) genuine,
    genuine.vinMasternode.prevout = forged.vinMasternode.prevout →
    ctx'.findPayee genuine.payee = ctx.findPayee forged.payee →
    genuine.nBlockHeight = forged.nBlockHeight → ctx'.signatureValid genuine = true →
    ctx'.Accepts (node.run messages) genuine →
    ctx'.Accepts (node.run ((ctx, forged) :: messages)) genuine

-- The message, or one like it, is accepted by a node that knows the key and the old block.
def trusting (ctx : WinnerContext) : WinnerContext :=
  { ctx with
    verifyMessage := fun _ _ _ _ _ => true
    getBlockHash := fun _ => some 0 }

theorem trusting_accepts (ctx : WinnerContext) (winner : CMasternodePaymentWinner)
    (records : ctx.Records node winner) :
    (trusting ctx).signatureValid winner = true ∧ (trusting ctx).Accepts node winner := by
  obtain ⟨leveled, gets, allowed⟩ := records
  have gets' : (trusting ctx).considered node winner = some leveled := gets
  obtain ⟨nHeight, mnlevel, _, same, passed, _⟩ := ctx.considered_some node winner leveled gets
  have known := ctx.passes_known node nHeight leveled passed
  subst same
  obtain ⟨pmn, found⟩ := Option.isSome_iff_exists.mp known
  have found' : (trusting ctx).findMasternode winner.vinMasternode.prevout = some pmn := found
  have valid : (trusting ctx).signatureValid winner = true := by
    simp only [signatureValid, found']
    rfl
  have valid' : (trusting ctx).signatureValid { winner with payeeLevel := mnlevel } = true := valid
  simp only [passes, Bool.and_eq_true] at passed
  have fresh : node.payments.newWinner (trusting ctx).toPaymentsContext
      { winner with payeeLevel := mnlevel } = true := by
    simp only [CMasternodePayments.newWinner, passed.1.1, Bool.and_true]
    rfl
  refine ⟨valid, ?_⟩
  rw [Accepts, (trusting ctx).processWinner_considered node winner _ gets']
  simp only [allowed, ↓reduceIte, addSigned, valid', node.canVote_recorded _ _ _ allowed,
    CMasternodePayments.addWinningMasternode, fresh]
  exact ⟨_, List.mem_cons_self⟩

-- A winner that CanVote has recorded shuts the height off for good, whether it is signed or forged.
theorem records_refuses (ctx ctx' : WinnerContext) (forged genuine : CMasternodePaymentWinner)
    (records : ctx.Records node forged) (messages : List WinnerMessage)
    (masternode : genuine.vinMasternode.prevout = forged.vinMasternode.prevout)
    (level : ctx'.findPayee genuine.payee = ctx.findPayee forged.payee)
    (height : genuine.nBlockHeight = forged.nBlockHeight) :
    ¬ ctx'.Accepts (node.run ((ctx, forged) :: messages)) genuine := by
  have recorded := records
  obtain ⟨winner, gets, _⟩ := records
  obtain ⟨_, mnlevel, known, _, _, _⟩ := ctx.considered_some node forged winner gets
  refine ctx'.not_accepts_voted _ genuine mnlevel (level.trans known) ?_
  rw [masternode, height]
  refine run_voted _ messages _ _ ⟨forged.nBlockHeight, ?_, le_rfl⟩
  rw [ctx.processWinner_lastVote node forged mnlevel known recorded, AList.lookup_insert]

theorem harmless_iff (ctx : WinnerContext) (forged : CMasternodePaymentWinner) :
    ((ctx.processWinner node forged).1.mapMasternodesLastVote = node.mapMasternodesLastVote ↔
        ¬ ctx.Records node forged) ∧
      (node.Harmless ctx forged ↔ ¬ ctx.Records node forged) := by
  have harmless : ¬ ctx.Records node forged → node.Harmless ctx forged := by
    intro unrecorded messages ctx' genuine _ _ _ _ accepted
    have same : node.run ((ctx, forged) :: messages) = node.run messages := by
      rw [run, List.foldl_cons, (ctx.processWinner_unrecorded node forged unrecorded).1, run]
    rwa [same]
  refine ⟨⟨fun same records => ?_, fun unrecorded => ?_⟩, ⟨fun claimed records => ?_, harmless⟩⟩
  · obtain ⟨winner, gets, allowed⟩ := records
    obtain ⟨_, mnlevel, level, leveled, _, _⟩ := ctx.considered_some node forged winner gets
    have voted := ctx.processWinner_lastVote node forged mnlevel level ⟨winner, gets, allowed⟩
    have known : node.mapMasternodesLastVote.lookup (voteKey forged.vinMasternode.prevout mnlevel) =
        some forged.nBlockHeight := by
      rw [← same, voted, AList.lookup_insert]
    subst leveled
    have lower := (node.canVote_allowed _ _ _).mp allowed forged.nBlockHeight known
    exact absurd lower (lt_irrefl _)
  · rw [(ctx.processWinner_unrecorded node forged unrecorded).1]
  · obtain ⟨signed, accepted⟩ := node.trusting_accepts ctx forged records
    exact node.records_refuses ctx (trusting ctx) forged forged records [] rfl rfl rfl
      (claimed [] (trusting ctx) forged rfl rfl rfl signed accepted)

end WinnerNode

namespace ForgedWinner

@[reducible] def heightHasher : WinnerHasher := ⟨fun _ nBlockHeight _ => BitVec.ofInt 256 nBlockHeight⟩

def context : WinnerContext where
  getBlockHash := fun _ => some 0
  nTipHeight := some 300
  mnodemanSize := 1
  fBlockchainSynced := true
  fSynced := true
  fLiteMode := false
  nPeerVersion := 70000
  activeProtocol := 70000
  findPayee := fun _ => some 1
  countEnabled := fun _ => 1
  findMasternode := fun _ => some ⟨70000, []⟩
  getMasternodeRank := fun _ _ => 1
  verifyMessage := fun _ signature _ _ _ => signature == [1]

def node : WinnerNode := ⟨.empty, ∅⟩

def winner (signature : List UInt8) : CMasternodePaymentWinner :=
  ⟨⟨⟨7, 0⟩, [], 0xffffffff⟩, 310, [0x51], signature, 0⟩

end ForgedWinner

open ForgedWinner in
theorem forgedWinner_harms :
    context.signatureValid (winner [0]) = false ∧
      (@WinnerContext.processWinner context heightHasher node (winner [0])).1.mapMasternodesLastVote ≠
        node.mapMasternodesLastVote ∧
      ¬ @WinnerNode.Harmless heightHasher node context (winner [0]) := by
  refine ⟨rfl, fun same => ?_, fun harmless => ?_⟩
  · have lookups := congrArg (fun map => map.lookup 8) same
    exact absurd lookups (by decide +kernel)
  · have genuine : (@WinnerContext.processWinner context heightHasher
        (@WinnerNode.run heightHasher node []) (winner [1])).2 =
        [.relay 310, .addedMasternodeWinner 310] := by
      decide +kernel
    have after : (@WinnerContext.processWinner context heightHasher
        (@WinnerNode.run heightHasher node [(context, winner [0])]) (winner [1])).2 = [] := by
      decide +kernel
    have accepted := harmless [] context (winner [1]) rfl rfl rfl rfl
      ⟨310, genuine ▸ List.mem_cons_self⟩
    obtain ⟨hash, member⟩ := accepted
    rw [after] at member
    cases member

end CryptoYen
