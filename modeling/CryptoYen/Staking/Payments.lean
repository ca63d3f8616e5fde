import CryptoYen.Consensus.Supply

set_option autoImplicit false

namespace CryptoYen

structure MasternodePayments where
  getBlockPayee : Int → Nat → Option CScript
  getCurrentMasterNode : Nat → Option CScript

def masternodeLevels : List Nat := [1, 2, 3, 4]

namespace MasternodePayments

variable (payments : MasternodePayments) (params : CChainParams) (chainActive : CChain)

def payee (mnlevel : Nat) : Option CScript :=
  match payments.getBlockPayee (chainActive.height + 1) mnlevel with
  | some payee => some payee
  | none => payments.getCurrentMasterNode mnlevel

def fillLevel (block_value : Int) (state : List CTxOut × Int) (mnlevel : Nat) :
    List CTxOut × Int :=
  match payments.payee chainActive mnlevel with
  | none => state
  | some payee =>
      let masternodePayment :=
        getMasternodePayment params chainActive chainActive.height mnlevel block_value
      if masternodePayment = 0 then state
      else (state.1 ++ [⟨masternodePayment, payee⟩], state.2 + masternodePayment)

def fillBlockPayee (vout : List CTxOut) (block_value : Int) : List CTxOut × Int :=
  match chainActive with
  | [] => (vout, 0)
  | _ => masternodeLevels.foldl (payments.fillLevel params chainActive block_value) (vout, 0)

def levelOutput (mnlevel : Nat) : Option CTxOut :=
  match payments.payee chainActive mnlevel with
  | none => none
  | some payee =>
      let masternodePayment :=
        getMasternodePayment params chainActive chainActive.height mnlevel 0
      if masternodePayment = 0 then none else some ⟨masternodePayment, payee⟩

def paid : List CTxOut :=
  match chainActive with
  | [] => []
  | _ => masternodeLevels.filterMap (payments.levelOutput params chainActive)

theorem fillLevel_eq (block_value : Int) (state : List CTxOut × Int) (mnlevel : Nat) :
    payments.fillLevel params chainActive block_value state mnlevel =
      (state.1 ++ (payments.levelOutput params chainActive mnlevel).toList,
        state.2 + ((payments.levelOutput params chainActive mnlevel).toList.map
          CTxOut.nValue).sum) := by
  simp only [fillLevel, levelOutput]
  cases payments.payee chainActive mnlevel with
  | none => simp
  | some payee =>
      have same : getMasternodePayment params chainActive chainActive.height mnlevel block_value =
          getMasternodePayment params chainActive chainActive.height mnlevel 0 := rfl
      dsimp only
      rw [same]
      split <;> simp

theorem fillLevels_eq (block_value : Int) (levels : List Nat) (state : List CTxOut × Int) :
    levels.foldl (payments.fillLevel params chainActive block_value) state =
      (state.1 ++ levels.filterMap (payments.levelOutput params chainActive),
        state.2 + ((levels.filterMap (payments.levelOutput params chainActive)).map
          CTxOut.nValue).sum) := by
  induction levels generalizing state with
  | nil => simp
  | cons mnlevel rest ih =>
      rw [List.foldl_cons, ih, fillLevel_eq]
      cases output : payments.levelOutput params chainActive mnlevel with
      | none => simp [output]
      | some txout => simp [output, Int.add_assoc]

theorem fillBlockPayee_eq (vout : List CTxOut) (block_value : Int) :
    payments.fillBlockPayee params chainActive vout block_value =
      (vout ++ payments.paid params chainActive,
        ((payments.paid params chainActive).map CTxOut.nValue).sum) := by
  cases chainActive with
  | nil => simp [fillBlockPayee, paid]
  | cons tip ancestors =>
      simp only [fillBlockPayee, paid]
      rw [fillLevels_eq]
      simp

theorem levelOutput_value (mnlevel : Nat) (txout : CTxOut)
    (output : payments.levelOutput params chainActive mnlevel = some txout) :
    txout.nValue = getMasternodePayment params chainActive chainActive.height mnlevel 0 := by
  simp only [levelOutput] at output
  split at output
  next => cases output
  next payee _ =>
    split at output
    next => cases output
    next =>
      cases output
      rfl

theorem paid_bound (txout : CTxOut) (present : txout ∈ payments.paid params chainActive) :
    0 ≤ txout.nValue ∧
      txout.nValue ≤ getBlockValue params chainActive chainActive.height := by
  cases chainActive with
  | nil => cases present
  | cons tip ancestors =>
      obtain ⟨mnlevel, _, output⟩ := List.mem_filterMap.mp present
      rw [levelOutput_value payments params (tip :: ancestors) mnlevel txout output]
      exact getMasternodePayment_bound params (tip :: ancestors) _ mnlevel 0

end MasternodePayments

end CryptoYen
