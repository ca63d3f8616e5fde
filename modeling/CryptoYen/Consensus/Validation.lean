import Mathlib.Tactic.Common

set_option autoImplicit false

namespace CryptoYen

def REJECT_INVALID : UInt8 := 0x10
def REJECT_OBSOLETE : UInt8 := 0x11
def REJECT_DUPLICATE : UInt8 := 0x12
def REJECT_NONSTANDARD : UInt8 := 0x40
def REJECT_INSUFFICIENTFEE : UInt8 := 0x42
def REJECT_CHECKPOINT : UInt8 := 0x43

-- How a check fails: what it leaves in the CValidationState, or why it does not return at all.
inductive Failure
  | invalid (nDoS : Nat) (chRejectCode : UInt8) (strRejectReason : String)
      (corruptionPossible : Bool)
  | error (strRejectReason : String)
  | rejected
  | assertion
  deriving DecidableEq, Repr

abbrev Check := Except Failure Unit

namespace Failure

def dos (level : Nat) (chRejectCode : UInt8) (strRejectReason : String) : Failure :=
  .invalid level chRejectCode strRejectReason false

-- CValidationState::DoS on a state that a callee has already marked.
def andDoS (failure : Failure) (level : Nat) (chRejectCode : UInt8) (strRejectReason : String)
    (corruption : Bool) : Failure :=
  match failure with
  | invalid nDoS _ _ _ => invalid (nDoS + level) chRejectCode strRejectReason corruption
  | rejected => invalid level chRejectCode strRejectReason corruption
  | other => other

end Failure

def require (condition : Bool) (failure : Failure) : Check :=
  if condition then .ok () else .error failure

def assertion {α : Type} : Option α → Except Failure α
  | some value => .ok value
  | none => .error .assertion

@[simp] theorem require_ok (condition : Bool) (failure : Failure) :
    require condition failure = .ok () ↔ condition = true := by
  cases condition <;> simp [require]

@[simp] theorem assertion_ok {α : Type} (result : Option α) (value : α) :
    assertion result = .ok value ↔ result = some value := by
  cases result <;> simp [assertion]

@[simp] theorem Except.bind_ok {ε α β : Type} (first : Except ε α) (second : α → Except ε β)
    (value : β) :
    (first >>= second) = .ok value ↔ ∃ mid, first = .ok mid ∧ second mid = .ok value := by
  cases first <;> simp [bind, Except.bind]

theorem Except.bind_error {ε α β : Type} (first : Except ε α) (second : α → Except ε β)
    (failure : ε) :
    (first >>= second) = .error failure ↔
      first = .error failure ∨ ∃ mid, first = .ok mid ∧ second mid = .error failure := by
  cases first <;> simp [bind, Except.bind]

theorem require_error (condition : Bool) (failure other : Failure) :
    require condition failure = .error other ↔ condition = false ∧ failure = other := by
  cases condition <;> simp [require]

theorem assertion_error {α : Type} (result : Option α) (failure : Failure) :
    assertion result = .error failure ↔ result = none ∧ failure = .assertion := by
  cases result <;> simp [assertion, eq_comm]

@[simp] theorem exists_unit (p : Unit → Prop) : (∃ mid, p mid) ↔ p () :=
  ⟨fun ⟨_, holds⟩ => holds, fun holds => ⟨(), holds⟩⟩

@[simp] theorem Except.pure_ok {ε α : Type} (first value : α) :
    (pure first : Except ε α) = .ok value ↔ first = value := by
  simp [pure, Except.pure]

@[simp] theorem Except.throw_ok {ε α : Type} (failure : ε) (value : α) :
    (throw failure : Except ε α) = .ok value ↔ False := by
  simp [throw, throwThe, MonadExceptOf.throw]

@[simp] theorem Except.mapError_ok {ε ε' α : Type} (first : Except ε α) (change : ε → ε')
    (value : α) : first.mapError change = .ok value ↔ first = .ok value := by
  cases first <;> simp [Except.mapError]

def okAnd {ε α : Type} (result : Except ε α) (test : α → Bool) : Bool :=
  match result with
  | .ok value => test value
  | .error _ => false

theorem okAnd_iff {ε α : Type} (result : Except ε α) (test : α → Bool) :
    okAnd result test = true ↔ ∃ value, result = .ok value ∧ test value = true := by
  cases result <;> simp [okAnd]

theorem forM_ok {α ε : Type} (items : List α) (check : α → Except ε Unit) :
    forM items check = .ok () ↔ ∀ item ∈ items, check item = .ok () := by
  induction items with
  | nil => simp
  | cons item rest ih => simp [List.forM_cons, ih]

theorem forM_error {α ε : Type} (items : List α) (check : α → Except ε Unit) (failure : ε)
    (failed : forM items check = .error failure) : ∃ item ∈ items, check item = .error failure := by
  induction items with
  | nil => cases failed
  | cons item rest ih =>
      rw [List.forM_cons, Except.bind_error] at failed
      rcases failed with here | ⟨_, _, later⟩
      · exact ⟨item, List.mem_cons_self, here⟩
      · obtain ⟨other, member, there⟩ := ih later
        exact ⟨other, List.mem_cons_of_mem item member, there⟩

end CryptoYen
