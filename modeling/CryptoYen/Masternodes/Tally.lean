import CryptoYen.Masternodes.Winners

set_option autoImplicit false

namespace CryptoYen

namespace CMasternodeBlockPayees

def votesIn (payments : List CMasternodePayee) (mnlevel : Nat) (script : CScript) : Int :=
  (payments.map fun p => if p.mnlevel = mnlevel ∧ p.scriptPubKey = script then p.nVotes else 0).sum

def countedLevel (payments : List CMasternodePayee) (mnlevel : Nat) (script : CScript) : Nat :=
  ((payments.find? fun p => p.scriptPubKey == script).map CMasternodePayee.mnlevel).getD mnlevel

theorem addPayment_votes (payments : List CMasternodePayee) (mnlevel level : Nat)
    (payeeIn script : CScript) (nIncrement : Int) :
    votesIn (addPayment mnlevel payeeIn nIncrement payments) level script =
      votesIn payments level script +
        if countedLevel payments mnlevel payeeIn = level ∧ payeeIn = script then nIncrement else 0 := by
  induction payments with
  | nil =>
      by_cases same : mnlevel = level ∧ payeeIn = script <;>
        simp [addPayment, votesIn, countedLevel, same]
  | cons p rest ih =>
      by_cases found : p.scriptPubKey = payeeIn
      · subst found
        simp only [addPayment, ↓reduceIte, votesIn, List.map_cons, List.sum_cons, countedLevel,
          List.find?_cons, beq_self_eq_true, Option.map_some, Option.getD_some]
        split <;> omega
      · have passed : countedLevel (p :: rest) mnlevel payeeIn = countedLevel rest mnlevel payeeIn := by
          simp [countedLevel, found]
        rw [passed]
        simp only [addPayment, found, ↓reduceIte, votesIn, List.map_cons, List.sum_cons] at ih ⊢
        omega

end CMasternodeBlockPayees

namespace CMasternodePayments

open CMasternodeBlockPayees (votesIn countedLevel addPayee addPayment_votes)

def votes (payments : CMasternodePayments) (nBlockHeight : Int) (mnlevel : Nat)
    (script : CScript) : Int :=
  votesIn (payments.blockPayees nBlockHeight).vecPayments mnlevel script

def winners (payments : CMasternodePayments) (nBlockHeight : Int) (mnlevel : Nat)
    (script : CScript) : Int :=
  Assoc.sumBy
    (fun winner : CMasternodePaymentWinner =>
      if winner.nBlockHeight = nBlockHeight ∧ winner.payeeLevel = mnlevel ∧ winner.payee = script
      then 1 else 0)
    payments.mapMasternodePayeeVotes

def Tallied (payments : CMasternodePayments) : Prop :=
  ∀ nBlockHeight mnlevel script,
    payments.votes nBlockHeight mnlevel script = payments.winners nBlockHeight mnlevel script

-- A winner that is stored finds its script without votes, or with votes of its own level.
def CountsOwnLevel [WinnerHasher] (payments : CMasternodePayments) (op : PaymentsOp) : Prop :=
  match op with
  | .addWinningMasternode ctx winner =>
      payments.newWinner ctx winner = true →
        countedLevel (payments.blockPayees winner.nBlockHeight).vecPayments winner.payeeLevel
          winner.payee = winner.payeeLevel
  | .cleanPaymentList _ => True
  | .clear => True

theorem empty_tallied : empty.Tallied := fun _ _ _ => rfl

theorem storeWinner_votes [WinnerHasher] (payments : CMasternodePayments)
    (winner : CMasternodePaymentWinner) (nBlockHeight : Int) (mnlevel : Nat) (script : CScript) :
    (payments.storeWinner winner).votes nBlockHeight mnlevel script =
      payments.votes nBlockHeight mnlevel script +
        if nBlockHeight = winner.nBlockHeight ∧
            countedLevel (payments.blockPayees winner.nBlockHeight).vecPayments winner.payeeLevel
              winner.payee = mnlevel ∧ winner.payee = script then 1 else 0 := by
  by_cases same : nBlockHeight = winner.nBlockHeight
  · subst same
    simp [votes, blockPayees, storeWinner, addPayee, addPayment_votes]
  · simp [votes, blockPayees, storeWinner, same]

theorem storeWinner_winners [WinnerHasher] (payments : CMasternodePayments)
    (winner : CMasternodePaymentWinner) (nBlockHeight : Int) (mnlevel : Nat) (script : CScript)
    (fresh : payments.mapMasternodePayeeVotes.lookup winner.getHash = none) :
    (payments.storeWinner winner).winners nBlockHeight mnlevel script =
      payments.winners nBlockHeight mnlevel script +
        if nBlockHeight = winner.nBlockHeight ∧ winner.payeeLevel = mnlevel ∧ winner.payee = script
        then 1 else 0 := by
  rw [winners, storeWinner, Assoc.sumBy_insert _ _ _ _ fresh, Int.add_comm, winners]
  simp only [eq_comm (a := nBlockHeight)]

theorem storeWinner_tallied [WinnerHasher] (payments : CMasternodePayments)
    (winner : CMasternodePaymentWinner) (tallied : payments.Tallied)
    (fresh : payments.mapMasternodePayeeVotes.lookup winner.getHash = none) :
    countedLevel (payments.blockPayees winner.nBlockHeight).vecPayments winner.payeeLevel
        winner.payee = winner.payeeLevel ↔
      (payments.storeWinner winner).Tallied := by
  constructor
  · intro agrees nBlockHeight mnlevel script
    rw [storeWinner_votes, payments.storeWinner_winners winner _ _ _ fresh, tallied, agrees]
  · intro after
    -- the winner is counted on its own level, so its vote must be too
    have counted := after winner.nBlockHeight winner.payeeLevel winner.payee
    rw [storeWinner_votes, payments.storeWinner_winners winner _ _ _ fresh, tallied] at counted
    by_contra other
    simp [other] at counted

theorem cleanPaymentList_votes (ctx : PaymentsContext) (nHeight : Int)
    (payments : CMasternodePayments) (tip : ctx.nTipHeight = some nHeight) (hash : Uint256) :
    (payments.cleanPaymentList ctx).mapMasternodePayeeVotes.lookup hash =
      (payments.mapMasternodePayeeVotes.lookup hash).filter fun winner =>
        !outdated ctx nHeight winner := by
  have erased : (payments.cleanPaymentList ctx).mapMasternodePayeeVotes =
      payments.mapMasternodePayeeVotes.entries.foldl
        (fun map item => if outdated ctx nHeight item.2 then map.erase item.1 else map)
        payments.mapMasternodePayeeVotes := by
    simp only [cleanPaymentList, tip]
    refine (List.foldl_hom mapMasternodePayeeVotes fun state item => ?_).symm
    simp only [cleanWinner]
    split <;> rfl
  rw [erased, Assoc.lookup_eraseWhere (fun item : WinnerItem => outdated ctx nHeight item.2)]
  simp only [Sigma.exists, Assoc.mem_entries]
  cases present : payments.mapMasternodePayeeVotes.lookup hash with
  | none => simp
  | some winner =>
      cases old : outdated ctx nHeight winner with
      | true =>
          rw [if_pos ⟨hash, winner, present, old, rfl⟩]
          simp [Option.filter, old]
      | false =>
          rw [if_neg]
          · simp [Option.filter, old]
          · rintro ⟨key, other, stored, outdates, rfl⟩
            rw [present, Option.some.injEq] at stored
            simp [← stored, old] at outdates

theorem cleanPaymentList_blocks (ctx : PaymentsContext) (nHeight : Int)
    (payments : CMasternodePayments) (tip : ctx.nTipHeight = some nHeight) (nBlockHeight : Int) :
    (payments.cleanPaymentList ctx).mapMasternodeBlocks.lookup nBlockHeight =
      if ∃ hash winner, payments.mapMasternodePayeeVotes.lookup hash = some winner ∧
          outdated ctx nHeight winner = true ∧ winner.nBlockHeight = nBlockHeight then none
      else payments.mapMasternodeBlocks.lookup nBlockHeight := by
  have erased : (payments.cleanPaymentList ctx).mapMasternodeBlocks =
      payments.mapMasternodePayeeVotes.entries.foldl
        (fun map item => if outdated ctx nHeight item.2 then map.erase item.2.nBlockHeight else map)
        payments.mapMasternodeBlocks := by
    simp only [cleanPaymentList, tip]
    refine (List.foldl_hom mapMasternodeBlocks fun state item => ?_).symm
    simp only [cleanWinner]
    split <;> rfl
  rw [erased, Assoc.lookup_eraseWhere (fun item : WinnerItem => outdated ctx nHeight item.2)
    (fun item => item.2.nBlockHeight)]
  simp only [Sigma.exists, Assoc.mem_entries]

-- Winners of one height are old together, so that a height is forgotten as a whole.
theorem cleanPaymentList_tallied (ctx : PaymentsContext) (payments : CMasternodePayments)
    (tallied : payments.Tallied) : (payments.cleanPaymentList ctx).Tallied := by
  cases tip : ctx.nTipHeight with
  | none => simpa [cleanPaymentList, tip] using tallied
  | some nHeight =>
      intro nBlockHeight mnlevel script
      have kept := cleanPaymentList_votes ctx nHeight payments tip
      have blocks := cleanPaymentList_blocks ctx nHeight payments tip nBlockHeight
      by_cases old : nLimit ctx < nHeight - nBlockHeight
      · have none_left : (payments.cleanPaymentList ctx).winners nBlockHeight mnlevel script = 0 := by
          refine Assoc.sumBy_zero _ _ fun hash winner stored => if_neg ?_
          rw [kept, Option.filter_eq_some_iff] at stored
          rintro ⟨rfl, _, _⟩
          simp [outdated, old] at stored
        rw [none_left]
        by_cases any : ∃ hash winner, payments.mapMasternodePayeeVotes.lookup hash = some winner ∧
            winner.nBlockHeight = nBlockHeight
        · obtain ⟨hash, winner, stored, rfl⟩ := any
          rw [if_pos ⟨hash, winner, stored, by simp [outdated, old], rfl⟩] at blocks
          simp [votes, blockPayees, blocks, votesIn]
        · have unvoted : payments.winners nBlockHeight mnlevel script = 0 := by
            refine Assoc.sumBy_zero _ _ fun hash winner stored => if_neg ?_
            exact fun holds => any ⟨hash, winner, stored, holds.1⟩
          rw [if_neg fun ⟨hash, winner, stored, _, same⟩ => any ⟨hash, winner, stored, same⟩] at blocks
          rw [votes, blockPayees, blocks]
          exact (tallied nBlockHeight mnlevel script).trans unvoted
      · have spared : (payments.cleanPaymentList ctx).winners nBlockHeight mnlevel script =
            payments.winners nBlockHeight mnlevel script := by
          refine Assoc.sumBy_filter _ (fun winner => !outdated ctx nHeight winner) _ _ kept ?_
          intro winner outdates
          refine if_neg ?_
          rintro ⟨rfl, _, _⟩
          simp [outdated, old] at outdates
        rw [if_neg] at blocks
        · rw [spared, ← tallied nBlockHeight mnlevel script, votes, blockPayees, blocks]
          rfl
        · rintro ⟨hash, winner, _, outdates, rfl⟩
          simp [outdated, old] at outdates

theorem step_tallied [WinnerHasher] (payments next : CMasternodePayments) (op : PaymentsOp)
    (tallied : payments.Tallied) (stepped : payments.step op = some next) :
    payments.CountsOwnLevel op ↔ next.Tallied := by
  cases op with
  | addWinningMasternode ctx winner =>
      cases stepped
      cases new : payments.newWinner ctx winner with
      | true =>
          have fresh : payments.mapMasternodePayeeVotes.lookup winner.getHash = none := by
            simp only [newWinner, Bool.and_eq_true, Option.isNone_iff_eq_none] at new
            exact new.2
          simpa [CountsOwnLevel, new, addWinningMasternode] using
            payments.storeWinner_tallied winner tallied fresh
      | false => simpa [CountsOwnLevel, new, addWinningMasternode] using tallied
  | cleanPaymentList ctx =>
      cases stepped
      simpa [CountsOwnLevel] using cleanPaymentList_tallied ctx payments tallied
  | clear =>
      cases stepped
      exact iff_of_true trivial empty_tallied

/-- The tally equals the winners all along a run exactly when every winner that the run stores is
counted on its own level. -/
theorem run_tallied_iff [WinnerHasher] (ops : List PaymentsOp) :
    (∀ first, first <+: ops → ∀ final, Machine.run step empty first = some final → final.Tallied) ↔
      Machine.Along CountsOwnLevel step empty ops :=
  Machine.prefixes_iff step CountsOwnLevel Tallied
    (fun payments op => by cases op <;> exact ⟨_, rfl⟩)
    (fun payments op next => step_tallied payments next op) empty ops empty_tallied

end CMasternodePayments

namespace SharedPayee

@[reducible] def outpointHasher : WinnerHasher := ⟨fun _ _ out => BitVec.ofNat 256 out.n⟩

def context : PaymentsContext := ⟨fun _ => some 0, some 1000, 10⟩

def winner (masternode mnlevel : Nat) : CMasternodePaymentWinner :=
  ⟨⟨⟨1, masternode⟩, [], 0xffffffff⟩, 1005, [0x51], [], mnlevel⟩

def ops : List PaymentsOp :=
  [.addWinningMasternode context (winner 1 1), .addWinningMasternode context (winner 2 2)]

end SharedPayee

open SharedPayee in
theorem sharedPayee_miscounted :
    ¬ ∀ final, Machine.run (@CMasternodePayments.step outpointHasher) .empty ops = some final →
      final.Tallied := by
  intro tallied
  have counted := tallied _ rfl 1005 2 [0x51]
  exact absurd counted (by decide +kernel)

end CryptoYen
