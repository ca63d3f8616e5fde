import CryptoYen.Library.Machine

set_option autoImplicit false

namespace UndoLog

universe u v w

variable {S : Type u} {E : Type v} {T : Type w}

/-- Undo edits from the last to the first; every undo also tells whether it fits. -/
def undoAll (undo : E → T → T × Bool) : List E → T → T × Bool
  | [], state => (state, true)
  | edit :: rest, state =>
      let later := undoAll undo rest state
      let here := undo edit later.1
      (here.1, later.2 && here.2)

theorem undoAll_append (undo : E → T → T × Bool) (first second : List E) (state : T) :
    undoAll undo (first ++ second) state =
      ((undoAll undo first (undoAll undo second state).1).1,
        (undoAll undo second state).2 && (undoAll undo first (undoAll undo second state).1).2) := by
  induction first with
  | nil => simp [undoAll]
  | cons edit rest ih => simp [undoAll, ih, Bool.and_assoc]

/-- How the undo of one edit behaves. Forward states satisfy an invariant and may keep more than the
restored ones; `Agree` relates a forward state to the restored one, and `Differ` is a difference that
no earlier undo repairs unnoticed. -/
structure Accountable (step : S → E → Option S) (undo : E → T → T × Bool) (inv : S → Prop)
    (good : S → E → Prop) (Agree Differ : S → T → Prop) : Prop where
  keeps : ∀ s edit next, inv s → step s edit = some next → inv next
  restores : ∀ s edit next restored, inv s → step s edit = some next → Agree next restored →
    good s edit → Agree s (undo edit restored).1 ∧ (undo edit restored).2 = true
  breaks : ∀ s edit next restored, inv s → step s edit = some next → Agree next restored →
    ¬ good s edit → Differ s (undo edit restored).1 ∨ (undo edit restored).2 = false
  persists : ∀ s edit next restored, inv s → step s edit = some next → Differ next restored →
    Differ s (undo edit restored).1 ∨ (undo edit restored).2 = false
  apart : ∀ s restored, Agree s restored → ¬ Differ s restored

variable {step : S → E → Option S} {undo : E → T → T × Bool} {inv : S → Prop}
  {good : S → E → Prop} {Agree Differ : S → T → Prop}

theorem Accountable.stays_apart (account : Accountable step undo inv good Agree Differ)
    (s next : S) (restored : T) (edit : E) (holds : inv s) (stepped : step s edit = some next)
    (clean : Bool) (difference : Differ next restored ∨ clean = false) :
    Differ s (undo edit restored).1 ∨ (clean && (undo edit restored).2) = false := by
  rcases difference with differ | noticed
  · rcases account.persists s edit next restored holds stepped differ with still | unfit
    · exact .inl still
    · exact .inr (by simp [unfit])
  · exact .inr (by simp [noticed])

theorem Accountable.outcome (account : Accountable step undo inv good Agree Differ)
    (edits : List E) (s last : S) (restored : T) (holds : inv s)
    (ran : Machine.run step s edits = some last) (agree : Agree last restored) :
    (Machine.Along good step s edits ∧ Agree s (undoAll undo edits restored).1 ∧
        (undoAll undo edits restored).2 = true) ∨
      (¬ Machine.Along good step s edits ∧
        (Differ s (undoAll undo edits restored).1 ∨ (undoAll undo edits restored).2 = false)) := by
  induction edits generalizing s with
  | nil =>
      cases ran
      exact .inl ⟨trivial, agree, rfl⟩
  | cons edit rest ih =>
      obtain ⟨next, stepped, rest_ran⟩ := Option.bind_eq_some_iff.mp ran
      have along : Machine.Along good step s (edit :: rest) ↔
          good s edit ∧ Machine.Along good step next rest := by
        simp [Machine.Along, stepped]
      rw [along]
      rcases ih next (account.keeps s edit next holds stepped) rest_ran with whole | broken
      · obtain ⟨later, same, fits⟩ := whole
        by_cases fine : good s edit
        · obtain ⟨agrees, clean⟩ := account.restores s edit next _ holds stepped same fine
          exact .inl ⟨⟨fine, later⟩, agrees, by simp [undoAll, fits, clean]⟩
        · have broke := account.breaks s edit next _ holds stepped same fine
          exact .inr ⟨fun both => fine both.1, by simpa [undoAll, fits] using broke⟩
      · obtain ⟨notLater, difference⟩ := broken
        exact .inr ⟨fun both => notLater both.2,
          account.stays_apart s next _ edit holds stepped _ difference⟩

/-- Undoing a run fits and restores its first state exactly when every edit is good. -/
theorem Accountable.restores_iff (account : Accountable step undo inv good Agree Differ)
    (edits : List E) (s last : S) (restored : T) (holds : inv s)
    (ran : Machine.run step s edits = some last) (agree : Agree last restored) :
    (Agree s (undoAll undo edits restored).1 ∧ (undoAll undo edits restored).2 = true) ↔
      Machine.Along good step s edits := by
  rcases account.outcome edits s last restored holds ran agree with whole | broken
  · exact ⟨fun _ => whole.1, fun _ => whole.2⟩
  · obtain ⟨notAll, difference⟩ := broken
    constructor
    · intro restoredAll
      rcases difference with differ | unfit
      · exact absurd differ (account.apart s _ restoredAll.1)
      · rw [restoredAll.2] at unfit
        cases unfit
    · intro all
      exact absurd all notAll

end UndoLog
