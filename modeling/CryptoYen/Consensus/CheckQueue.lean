import CryptoYen.Library.Machine
import CryptoYen.Library.Threads
import Mathlib.Data.Fintype.Option
import Mathlib.Data.List.Perm.Subperm
import Mathlib.Data.Multiset.AddSub
import Mathlib.Tactic.Abel

set_option autoImplicit false

namespace CryptoYen

/-- The state behind the mutex. The queue's back is the head of the list. -/
structure CCheckQueue (T : Type) where
  queue : List T
  nIdle : Int
  nTotal : Int
  fAllOk : Bool
  -- Verifications that have not completed yet, also those in the batches of the threads.
  nTodo : Nat
  fQuit : Bool
  nBatchSize : Nat
  deriving DecidableEq, Repr

/-- Where a thread stands in Loop: between two critical sections it waits for its condition
variable or works on its batch. -/
inductive LoopState (T : Type)
  | outside
  | waiting (notified : Bool)
  | working (vChecks : List T) (nNow : Nat) (fOk : Bool)
  deriving DecidableEq, Repr

inductive LoopExit (T : Type)
  | returned (fRet : Bool)
  | waits
  | works (vChecks : List T) (fOk : Bool)
  deriving DecidableEq, Repr

namespace CCheckQueue

variable {T : Type}

def init (nBatchSizeIn : Nat) : CCheckQueue T := ⟨[], 0, 0, true, 0, false, nBatchSizeIn⟩

def isIdle (q : CCheckQueue T) : Bool := q.nTotal == q.nIdle && q.nTodo == 0 && q.fAllOk == true

def add (vChecks : List T) (q : CCheckQueue T) : CCheckQueue T :=
  { q with queue := vChecks.reverse ++ q.queue, nTodo := q.nTodo + vChecks.length }

def batchSize (q : CCheckQueue T) : Nat :=
  max 1 (min q.nBatchSize (q.queue.length / (q.nTotal + q.nIdle + 1).toNat))

/-- From the test of the queue on; none is a pop from an empty vector. -/
def proceed (fMaster : Bool) (q : CCheckQueue T) : Option (CCheckQueue T × LoopExit T) :=
  if q.queue.isEmpty then
    if (fMaster || q.fQuit) && q.nTodo == 0 then
      some ({ q with
        nTotal := q.nTotal - 1
        -- reset the status for new work later
        fAllOk := if fMaster then true else q.fAllOk }, .returned q.fAllOk)
    else some ({ q with nIdle := q.nIdle + 1 }, .waits)
  else
    let nNow := q.batchSize
    if q.queue.length < nNow then none
    else some ({ q with queue := q.queue.drop nNow }, .works (q.queue.take nNow) q.fAllOk)

def enter (fMaster : Bool) (q : CCheckQueue T) : Option (CCheckQueue T × LoopExit T) :=
  { q with nTotal := q.nTotal + 1 }.proceed fMaster

/-- The clean-up of the previous loop run, in the critical section of the next one; none is a
counter below zero. -/
def cleanUp (fMaster : Bool) (nNow : Nat) (fOk : Bool) (q : CCheckQueue T) :
    Option (CCheckQueue T × LoopExit T) :=
  if q.nTodo < nNow then none
  else { q with fAllOk := q.fAllOk && fOk, nTodo := q.nTodo - nNow }.proceed fMaster

def wake (fMaster : Bool) (q : CCheckQueue T) : Option (CCheckQueue T × LoopExit T) :=
  { q with nIdle := q.nIdle - 1 }.proceed fMaster

theorem proceed_cases (q : CCheckQueue T) (quit : q.fQuit = false) (fMaster : Bool) :
    ∃ exit, q.proceed fMaster = some exit ∧
      ((exit = ({ q with nTotal := q.nTotal - 1, fAllOk := true }, .returned q.fAllOk) ∧
          fMaster = true ∧ q.queue = [] ∧ q.nTodo = 0) ∨
        (exit = ({ q with nIdle := q.nIdle + 1 }, .waits) ∧ q.queue = [] ∧
          (fMaster = true → q.nTodo ≠ 0)) ∨
        ∃ first rest, exit = ({ q with queue := rest }, .works first q.fAllOk) ∧ first ≠ [] ∧
          q.queue = first ++ rest) := by
  rw [proceed, quit, Bool.or_false]
  by_cases empty : q.queue = []
  · rw [if_pos (List.isEmpty_iff.mpr empty)]
    by_cases ended : (fMaster && q.nTodo == 0) = true
    · rw [if_pos ended]
      rw [Bool.and_eq_true, beq_iff_eq] at ended
      refine ⟨_, rfl, .inl ⟨?_, ended.1, empty, ended.2⟩⟩
      rw [if_pos ended.1]
    · rw [if_neg ended]
      refine ⟨_, rfl, .inr (.inl ⟨rfl, empty, fun master zero => ended ?_⟩)⟩
      rw [master, zero]
      rfl
  · rw [if_neg (fun none => empty (List.isEmpty_iff.mp none))]
    have positive := List.length_pos_iff.mpr empty
    have few : q.batchSize ≤ q.queue.length := by
      have share := Nat.div_le_self q.queue.length (q.nTotal + q.nIdle + 1).toNat
      rw [batchSize]
      omega
    have some_check : 1 ≤ q.batchSize := Nat.le_max_left _ _
    dsimp only
    rw [if_neg (Nat.not_lt.mpr few)]
    refine ⟨_, rfl, .inr (.inr ⟨_, _, rfl, ?_, (List.take_append_drop q.batchSize q.queue).symm⟩)⟩
    rw [← List.length_pos_iff, List.length_take]
    omega

end CCheckQueue

structure CheckRound (T : Type) where
  added : List T
  fRet : Bool
  executed : List T
  deriving DecidableEq, Repr

structure CheckQueueThreads (T W : Type) where
  queue : CCheckQueue T
  threads : Option W → LoopState T
  -- Since the last call of Wait.
  added : List T
  executed : List T
  skipped : List T
  rounds : List (CheckRound T)

namespace CheckQueueThreads

open CCheckQueue

variable {T W : Type}

inductive Event (T W : Type)
  -- The constructor of CCheckQueueControl.
  | control
  | add (vChecks : List T)
  | enter (i : Option W)
  -- One pass of the loop over the batch, outside the mutex.
  | work (i : Option W)
  | relock (i : Option W)
  -- The end of a wait, after a notification or without one.
  | wake (i : Option W)
  deriving DecidableEq, Repr

def start (nBatchSizeIn : Nat) : CheckQueueThreads T W :=
  ⟨.init nBatchSizeIn, fun _ => .outside, [], [], [], []⟩

section steps

variable [DecidableEq W] (s : CheckQueueThreads T W)

def notifyMaster : CheckQueueThreads T W :=
  match s.threads none with
  | .waiting _ => { s with threads := Function.update s.threads none (.waiting true) }
  | _ => s

def leave (i : Option W) (exit : CCheckQueue T × LoopExit T) : CheckQueueThreads T W :=
  let s := { s with queue := exit.1 }
  match exit.2 with
  | .waits => { s with threads := Function.update s.threads i (.waiting false) }
  | .works vChecks fOk =>
      { s with threads := Function.update s.threads i (.working vChecks vChecks.length fOk) }
  | .returned fRet =>
      let s := { s with threads := Function.update s.threads i .outside }
      if i = none then
        { s with
          rounds := ⟨s.added, fRet, s.executed⟩ :: s.rounds
          added := []
          executed := []
          skipped := [] }
      else s

def step (run : T → Bool) : Event T W → Option (CheckQueueThreads T W)
  | .control => if s.queue.isIdle then some s else none
  | .add vChecks =>
      some { s with queue := s.queue.add vChecks, added := vChecks ++ s.added }
  | .enter i =>
      match s.threads i with
      | .outside => (s.queue.enter i.isNone).map (s.leave i)
      | _ => none
  | .work i =>
      match s.threads i with
      | .working (check :: vChecks) nNow true =>
          some { s with
            threads := Function.update s.threads i (.working vChecks nNow (run check))
            executed := check :: s.executed }
      | .working (check :: vChecks) nNow false =>
          some { s with
            threads := Function.update s.threads i (.working vChecks nNow false)
            skipped := check :: s.skipped }
      | _ => none
  | .relock i =>
      match s.threads i with
      | .working [] nNow fOk =>
          -- We processed the last element; inform the master.
          let s := if s.queue.nTodo = nNow ∧ i ≠ none then s.notifyMaster else s
          (s.queue.cleanUp i.isNone nNow fOk).map (s.leave i)
      | _ => none
  | .wake i =>
      match s.threads i with
      | .waiting _ => (s.queue.wake i.isNone).map (s.leave i)
      | _ => none

end steps

section invariant

@[simp] def held : LoopState T → Nat
  | .working _ nNow _ => nNow
  | _ => 0

@[simp] def carried : LoopState T → Multiset T
  | .working vChecks _ _ => vChecks
  | _ => 0

@[simp] def idles : LoopState T → Nat
  | .waiting _ => 1
  | _ => 0

@[simp] def loops : LoopState T → Nat
  | .outside => 0
  | _ => 1

def Failed (state : LoopState T) : Prop := ∃ vChecks nNow, state = .working vChecks nNow false

@[simp] theorem not_failed_outside : ¬ Failed (.outside : LoopState T) := by
  rintro ⟨_, _, busy⟩
  cases busy

@[simp] theorem not_failed_waiting (notified : Bool) : ¬ Failed (.waiting notified : LoopState T) := by
  rintro ⟨_, _, busy⟩
  cases busy

@[simp] theorem failed_working (vChecks : List T) (nNow : Nat) (fOk : Bool) :
    Failed (.working vChecks nNow fOk) ↔ fOk = false := by
  constructor
  · rintro ⟨_, _, busy⟩
    exact (LoopState.working.inj busy).2.2
  · rintro rfl
    exact ⟨vChecks, nNow, rfl⟩

structure Judged (run : T → Bool) (round : CheckRound T) : Prop where
  verdict : round.fRet = round.added.all run
  once : round.executed.Subperm round.added
  all : round.fRet = true → round.executed.Perm round.added

variable [Fintype W] [DecidableEq W]

/-- What holds of the threads and the counters while one thread or none is inside the mutex. -/
structure Kept (run : T → Bool) (inside : Nat) (s : CheckQueueThreads T W) : Prop where
  quit : s.queue.fQuit = false
  todo : s.queue.nTodo = s.queue.queue.length + Threads.total held s.threads
  positive : ∀ i vChecks nNow fOk, s.threads i = .working vChecks nNow fOk → 0 < nNow
  idle : s.queue.nIdle = Threads.total idles s.threads
  total : s.queue.nTotal = Threads.total loops s.threads + inside
  bounded : s.queue.nTodo ≤ s.added.length
  accounted : (s.queue.queue : Multiset T) + Threads.total carried s.threads +
    (s.executed + s.skipped : Multiset T) = s.added
  verdict : (s.queue.fAllOk = true ∧ ∀ i, ¬ Failed (s.threads i)) ↔ s.executed.all run = true
  skips : s.skipped ≠ [] → s.executed.all run = false
  rounds : ∀ round ∈ s.rounds, Judged run round
  -- The last thread to clean up notifies the master.
  notified : s.threads none = .waiting false → s.queue.nTodo ≠ 0

variable {run : T → Bool} {inside : Nat} {s : CheckQueueThreads T W}

omit [DecidableEq W] in
theorem Kept.idle_thread (kept : Kept run 0 s) (none_added : s.added = []) :
    s.queue.isIdle = true := by
  have nothing : s.queue.nTodo = 0 := by
    have bounded := kept.bounded
    rw [none_added] at bounded
    exact Nat.le_zero.mp bounded
  have free (i : Option W) (vChecks : List T) (nNow : Nat) (fOk : Bool) :
      s.threads i ≠ .working vChecks nNow fOk := by
    intro busy
    have part := Threads.held_le_total held s.threads i
    have positive := kept.positive i vChecks nNow fOk busy
    have todo := kept.todo
    rw [busy] at part
    change nNow ≤ _ at part
    omega
  have same : Threads.total loops s.threads = Threads.total idles s.threads := by
    refine Finset.sum_congr rfl fun i _ => ?_
    cases at_i : s.threads i with
    | outside => rfl
    | waiting notified => rfl
    | working vChecks nNow fOk => exact absurd at_i (free i vChecks nNow fOk)
  have executed : s.executed = [] := by
    have accounted := kept.accounted
    rw [none_added, Multiset.coe_nil, add_eq_zero, add_eq_zero, add_eq_zero] at accounted
    exact Multiset.coe_eq_zero s.executed |>.mp accounted.2.1
  have ok : s.queue.fAllOk = true := (kept.verdict.mpr (by rw [executed]; rfl)).1
  rw [isIdle, kept.total, kept.idle, same, nothing, ok]
  simp

theorem Kept.exchange (kept : Kept run inside s) (i : Option W) (q : CCheckQueue T)
    (state : LoopState T) (executed skipped : List T) (inside' : Nat) (quit : q.fQuit = false)
    (todo : q.nTodo + held (s.threads i) + s.queue.queue.length =
      s.queue.nTodo + held state + q.queue.length)
    (positive : ∀ vChecks nNow fOk, state = .working vChecks nNow fOk → 0 < nNow)
    (idle : q.nIdle + idles (s.threads i) = s.queue.nIdle + idles state)
    (total : q.nTotal + loops (s.threads i) + inside = s.queue.nTotal + loops state + inside')
    (bounded : q.nTodo ≤ s.added.length)
    (taken : (q.queue : Multiset T) + carried state + (executed + skipped : Multiset T) =
      s.queue.queue + carried (s.threads i) + (s.executed + s.skipped : Multiset T))
    (verdict : ∀ rest, ((s.queue.fAllOk = true ∧ ¬ Failed (s.threads i)) ∧ rest ↔
        s.executed.all run = true) →
      ((q.fAllOk = true ∧ ¬ Failed state) ∧ rest ↔ executed.all run = true))
    (skips : skipped ≠ [] → executed.all run = false)
    (notified : Function.update s.threads i state none = .waiting false → q.nTodo ≠ 0) :
    Kept run inside' { s with
      queue := q, threads := Function.update s.threads i state, executed, skipped } := by
  have others {P : LoopState T → Prop} : (∀ j, P (Function.update s.threads i state j)) ↔
      P state ∧ ∀ j, j ≠ i → P (s.threads j) := Function.forall_update_iff s.threads fun _ => P
  have before {P : LoopState T → Prop} : (∀ j, P (s.threads j)) ↔
      P (s.threads i) ∧ ∀ j, j ≠ i → P (s.threads j) := by
    rw [← Function.forall_update_iff s.threads (fun _ => P), Function.update_eq_self]
  refine ⟨quit, ?_, ?_, ?_, ?_, bounded, ?_, ?_, skips, kept.rounds, notified⟩
  · have changed := Threads.total_update held s.threads i state
    have here := kept.todo
    dsimp only
    omega
  · intro j vChecks nNow fOk
    exact (others (P := fun state => state = .working vChecks nNow fOk → 0 < nNow)).mpr
      ⟨positive vChecks nNow fOk, fun j _ => kept.positive j vChecks nNow fOk⟩ j
  · have changed := Threads.total_update idles s.threads i state
    have here := kept.idle
    dsimp only
    omega
  · have changed := Threads.total_update loops s.threads i state
    have here := kept.total
    dsimp only
    omega
  · have changed := Threads.total_update carried s.threads i state
    have here := kept.accounted
    dsimp only
    refine add_right_cancel (b := carried (s.threads i)) ?_
    calc (q.queue : Multiset T) + Threads.total carried (Function.update s.threads i state) +
            (executed + skipped : Multiset T) + carried (s.threads i)
        = (Threads.total carried (Function.update s.threads i state) + carried (s.threads i)) +
            (q.queue + (executed + skipped : Multiset T)) := by abel
      _ = Threads.total carried s.threads +
            (q.queue + carried state + (executed + skipped : Multiset T)) := by
          rw [changed]
          abel
      _ = s.queue.queue + Threads.total carried s.threads +
            (s.executed + s.skipped : Multiset T) + carried (s.threads i) := by
          rw [taken]
          abel
      _ = s.added + carried (s.threads i) := by rw [here]
  · have here := kept.verdict
    rw [before (P := fun state => ¬ Failed state), ← and_assoc] at here
    rw [others (P := fun state => ¬ Failed state), ← and_assoc]
    exact verdict _ here

theorem Kept.swap (kept : Kept run inside s) (i : Option W) (q : CCheckQueue T) (state : LoopState T)
    (inside' : Nat) (quit : q.fQuit = false)
    (todo : q.nTodo + held (s.threads i) + s.queue.queue.length =
      s.queue.nTodo + held state + q.queue.length)
    (positive : ∀ vChecks nNow fOk, state = .working vChecks nNow fOk → 0 < nNow)
    (idle : q.nIdle + idles (s.threads i) = s.queue.nIdle + idles state)
    (total : q.nTotal + loops (s.threads i) + inside = s.queue.nTotal + loops state + inside')
    (bounded : q.nTodo ≤ s.added.length)
    (taken : (q.queue : Multiset T) + carried state = s.queue.queue + carried (s.threads i))
    (verdict : (q.fAllOk = true ∧ ¬ Failed state) ↔
      (s.queue.fAllOk = true ∧ ¬ Failed (s.threads i)))
    (notified : Function.update s.threads i state none = .waiting false → q.nTodo ≠ 0) :
    Kept run inside' { s with queue := q, threads := Function.update s.threads i state } :=
  kept.exchange i q state s.executed s.skipped inside' quit todo positive idle total bounded
    (by rw [taken]) (fun rest => by rw [verdict]; exact id) kept.skips notified

structure Locked (run : T → Bool) (i : Option W) (s : CheckQueueThreads T W) : Prop where
  here : s.threads i = .outside
  kept : Kept run 1 s

-- What is left of a round: every check is taken and run, every batch cleaned up, and a notified
-- thread wakes.
@[simp] def weight : LoopState T → Nat
  | .outside => 0
  | .waiting notified => if notified then 1 else 0
  | .working vChecks _ _ => vChecks.length + 2

def effort (s : CheckQueueThreads T W) : Nat :=
  3 * s.queue.queue.length + Threads.total weight s.threads

def Gains (gain : Nat) (s next : CheckQueueThreads T W) : Prop :=
  (next.threads none = .outside ∧ next.rounds.length = s.rounds.length + 1) ∨
    (next.rounds = s.rounds ∧ (next.threads none = .outside ↔ s.threads none = .outside) ∧
      next.effort + gain ≤ s.effort)

def Lively (s : CheckQueueThreads T W) : Prop :=
  s.threads none = .waiting false → ∃ w vChecks nNow fOk, s.threads (some w) = .working vChecks nNow fOk

section leaving

variable {i : Option W} (locked : Locked run i s)

include locked

omit [DecidableEq W] in
theorem Locked.other_works (empty : s.queue.queue = []) (more : s.queue.nTodo ≠ 0) :
    ∃ j vChecks nNow fOk, j ≠ i ∧ s.threads j = .working vChecks nNow fOk := by
  have todo := locked.kept.todo
  rw [empty, List.length_nil, Nat.zero_add] at todo
  rw [todo] at more
  obtain ⟨j, holds⟩ := Threads.exists_holder held s.threads more
  cases at_j : s.threads j with
  | outside =>
      rw [at_j] at holds
      exact absurd rfl holds
  | waiting notified =>
      rw [at_j] at holds
      exact absurd rfl holds
  | working vChecks nNow fOk =>
      refine ⟨j, vChecks, nNow, fOk, ?_, at_j⟩
      rintro rfl
      rw [locked.here] at at_j
      cases at_j

end leaving

omit [DecidableEq W] in
theorem Kept.resting (kept : Kept run inside s) (nothing : s.queue.nTodo = 0) (i : Option W)
    (vChecks : List T) (nNow : Nat) (fOk : Bool) : s.threads i ≠ .working vChecks nNow fOk := by
  intro busy
  have part := Threads.held_le_total held s.threads i
  have positive := kept.positive i vChecks nNow fOk busy
  have todo := kept.todo
  rw [busy] at part
  change nNow ≤ _ at part
  omega

omit [DecidableEq W] in
theorem Kept.judged (kept : Kept run inside s) (empty : s.queue.queue = [])
    (nothing : s.queue.nTodo = 0) :
    Judged run ⟨s.added, s.queue.fAllOk, s.executed⟩ ∧
      (s.queue.fAllOk = true ↔ s.executed.all run = true) := by
  have carries : Threads.total carried s.threads = 0 := by
    refine Threads.total_zero carried s.threads fun i => ?_
    cases at_i : s.threads i with
    | outside => rfl
    | waiting notified => rfl
    | working vChecks nNow fOk => exact absurd at_i (kept.resting nothing i vChecks nNow fOk)
  have accounted := kept.accounted
  rw [empty, carries, Multiset.coe_nil, zero_add, zero_add, Multiset.coe_add, Multiset.coe_eq_coe]
    at accounted
  have verdict : s.queue.fAllOk = true ↔ s.executed.all run = true := by
    rw [← kept.verdict]
    refine ⟨fun ok => ⟨ok, ?_⟩, And.left⟩
    rintro i ⟨vChecks, nNow, busy⟩
    exact kept.resting nothing i vChecks nNow false busy
  have whole (passed : s.executed.all run = true) : s.executed.Perm s.added := by
    have none_skipped : s.skipped = [] := by
      by_contra some_skipped
      rw [kept.skips some_skipped] at passed
      cases passed
    rwa [none_skipped, List.append_nil] at accounted
  refine ⟨⟨?_, ?_, fun ok => whole (verdict.mp ok)⟩, verdict⟩
  · rw [Bool.eq_iff_iff, verdict]
    constructor
    · intro passed
      exact ((whole passed).all_eq).symm.trans passed
    · intro all
      rw [List.all_eq_true] at all ⊢
      exact fun check ran => all check (accounted.subset (List.mem_append_left _ ran))
  · exact (List.sublist_append_left s.executed s.skipped).subperm.trans accounted.subperm

theorem Locked.returns (locked : Locked run none s) (empty : s.queue.queue = [])
    (nothing : s.queue.nTodo = 0) :
    Kept run 0 (s.leave none
      ({ s.queue with nTotal := s.queue.nTotal - 1, fAllOk := true }, .returned s.queue.fAllOk)) := by
  have kept := locked.kept
  have same : Function.update s.threads none .outside = s.threads := by
    rw [← locked.here, Function.update_eq_self]
  rw [leave]
  dsimp only
  rw [if_pos rfl, same]
  have free (i : Option W) : ¬ Failed (s.threads i) := by
    rintro ⟨vChecks, nNow, busy⟩
    exact kept.resting nothing i vChecks nNow false busy
  refine ⟨kept.quit, kept.todo, kept.positive, kept.idle, ?_, ?_, ?_, ?_, fun skipped => ?_, ?_, ?_⟩
  · dsimp only
    rw [kept.total]
    push_cast
    omega
  · dsimp only
    rw [nothing]
    exact Nat.zero_le _
  · have carries : Threads.total carried s.threads = 0 := by
      refine Threads.total_zero carried s.threads fun i => ?_
      cases at_i : s.threads i with
      | outside => rfl
      | waiting notified => rfl
      | working vChecks nNow fOk => exact absurd at_i (kept.resting nothing i vChecks nNow fOk)
    dsimp only
    rw [empty, carries]
    rfl
  · exact iff_of_true ⟨rfl, free⟩ rfl
  · exact absurd rfl skipped
  · rintro round (_ | ⟨_, earlier⟩)
    · exact (kept.judged empty nothing).1
    · exact kept.rounds round earlier
  · intro waits
    have outside : s.threads none = .waiting false := waits
    rw [locked.here] at outside
    cases outside

theorem effort_update (s : CheckQueueThreads T W) (i : Option W) (q : CCheckQueue T)
    (state : LoopState T) :
    effort { s with queue := q, threads := Function.update s.threads i state } +
        3 * s.queue.queue.length + weight (s.threads i) =
      s.effort + 3 * q.queue.length + weight state := by
  have changed := Threads.total_update weight s.threads i state
  dsimp only [effort]
  omega

theorem Locked.proceeds {i : Option W} (locked : Locked run i s) :
    ∃ exit, s.queue.proceed i.isNone = some exit ∧ Kept run 0 (s.leave i exit) ∧
      Lively (s.leave i exit) ∧
      ((i = none ∧ (s.leave i exit).threads none = .outside ∧
          (s.leave i exit).rounds.length = s.rounds.length + 1) ∨
        ((s.leave i exit).rounds = s.rounds ∧ (s.leave i exit).threads i ≠ .outside ∧
          (∀ j, j ≠ i → (s.leave i exit).threads j = s.threads j) ∧
          (s.leave i exit).effort ≤ s.effort)) := by
  obtain ⟨exit, proceeds, ends⟩ := s.queue.proceed_cases locked.kept.quit i.isNone
  refine ⟨exit, proceeds, ?_⟩
  rcases ends with ⟨rfl, master, empty, nothing⟩ | ⟨rfl, empty, more⟩ | ⟨first, rest, rfl, some_check, split⟩
  · rw [Option.isNone_iff_eq_none] at master
    subst master
    have outside : (s.leave none ({ s.queue with nTotal := s.queue.nTotal - 1, fAllOk := true },
        .returned s.queue.fAllOk)).threads none = .outside := by
      simp [leave]
    refine ⟨locked.returns empty nothing, fun waits => ?_, .inl ⟨rfl, outside, ?_⟩⟩
    · rw [outside] at waits
      cases waits
    · simp [leave]
  · have todo (waits : Function.update s.threads i (.waiting false) none = .waiting false) :
        s.queue.nTodo ≠ 0 := by
      by_cases master : none = i
      · subst master
        exact more rfl
      · rw [Function.update_of_ne master] at waits
        exact locked.kept.notified waits
    refine ⟨locked.kept.swap i _ (.waiting false) 0 locked.kept.quit ?_ ?_ ?_ ?_ locked.kept.bounded
      ?_ ?_ todo, fun waits => ?_, .inr ⟨rfl, ?_, fun j other => Function.update_of_ne other _ _, ?_⟩⟩
    · simp [locked.here]
    · rintro _ _ _ ⟨⟩
    · simp [locked.here]
    · simp [locked.here]
    · simp [locked.here]
    · simp [locked.here]
    · rw [leave] at waits ⊢
      dsimp only at waits ⊢
      obtain ⟨j, vChecks, nNow, fOk, other, busy⟩ := locked.other_works empty (todo waits)
      rw [← Function.update_of_ne other (.waiting false) s.threads] at busy
      cases j with
      | none =>
          rw [waits] at busy
          cases busy
      | some w => exact ⟨w, vChecks, nNow, fOk, busy⟩
    · simp [leave]
    · have changed := s.effort_update i { s.queue with nIdle := s.queue.nIdle + 1 } (.waiting false)
      simp only [locked.here, weight, Bool.false_eq_true, ↓reduceIte] at changed
      dsimp only [leave]
      omega
  · have many := List.length_pos_iff.mpr some_check
    refine ⟨locked.kept.swap i _ (.working first first.length s.queue.fAllOk) 0 locked.kept.quit ?_ ?_
      ?_ ?_ locked.kept.bounded ?_ ?_ ?_, fun waits => ?_,
      .inr ⟨rfl, ?_, fun j other => Function.update_of_ne other _ _, ?_⟩⟩
    · simp [locked.here, split, Nat.add_assoc]
    · rintro _ _ _ ⟨⟩
      exact many
    · simp [locked.here]
    · simp [locked.here]
    · simp [locked.here, split, add_comm]
    · simp [locked.here]
    · intro waits
      by_cases master : none = i
      · subst master
        rw [Function.update_self] at waits
        cases waits
      · rw [Function.update_of_ne master] at waits
        exact locked.kept.notified waits
    · rw [leave] at waits ⊢
      dsimp only at waits ⊢
      cases i with
      | none =>
          rw [Function.update_self] at waits
          cases waits
      | some w => exact ⟨w, _, _, _, Function.update_self _ _ _⟩
    · simp [leave]
    · have changed := s.effort_update i { s.queue with queue := rest }
        (.working first first.length s.queue.fAllOk)
      have parts := congrArg List.length split
      rw [List.length_append] at parts
      simp only [locked.here, weight] at changed
      dsimp only [leave]
      omega

omit [Fintype W] in
theorem leave_locked (s : CheckQueueThreads T W) (i : Option W) (q : CCheckQueue T)
    (state : LoopState T) (exit : CCheckQueue T × LoopExit T) :
    ({ s with queue := q, threads := Function.update s.threads i state } :
      CheckQueueThreads T W).leave i exit = s.leave i exit := by
  obtain ⟨next, left⟩ := exit
  cases left <;> simp only [leave, Function.update_idem]

end invariant

section allowed

variable [DecidableEq W]

def hasWork : LoopState T → Bool
  | .working (_ :: _) _ _ => true
  | _ => false

def isDone : LoopState T → Bool
  | .working [] _ _ => true
  | _ => false

def isWaiting : LoopState T → Bool
  | .waiting _ => true
  | _ => false

def isOutside : LoopState T → Bool
  | .outside => true
  | _ => false

/-- One master adds and waits; a controller is made when the checks of the last one are through. -/
def Allowed (s : CheckQueueThreads T W) : Event T W → Prop
  | .control => isOutside (s.threads none) = true ∧ s.added.isEmpty = true
  | .add _ => isOutside (s.threads none) = true
  | .enter i => isOutside (s.threads i) = true
  | .work i => hasWork (s.threads i) = true
  | .relock i => isDone (s.threads i) = true
  | .wake i => isWaiting (s.threads i) = true

instance (s : CheckQueueThreads T W) (event : Event T W) : Decidable (Allowed s event) := by
  cases event <;> unfold Allowed <;> infer_instance

def isNotified : LoopState T → Bool
  | .waiting notified => notified
  | _ => false

def awake (s : CheckQueueThreads T W) : Event T W → Bool
  | .work i => hasWork (s.threads i)
  | .relock i => isDone (s.threads i)
  | .wake i => isNotified (s.threads i)
  | _ => false

end allowed

section runs

variable [Fintype W] [DecidableEq W] {run : T → Bool} {s : CheckQueueThreads T W}

theorem outside_of (state : LoopState T) (is_outside : isOutside state = true) :
    state = .outside := by
  cases state with
  | outside => rfl
  | waiting notified => cases is_outside
  | working vChecks nNow fOk => cases is_outside

omit [DecidableEq W] in
theorem Kept.adds (kept : Kept run 0 s) (outside : s.threads none = .outside) (vChecks : List T) :
    Kept run 0 { s with queue := s.queue.add vChecks, added := vChecks ++ s.added } := by
  refine ⟨kept.quit, ?_, kept.positive, kept.idle, kept.total, ?_, ?_, kept.verdict, kept.skips,
    kept.rounds, fun waits => ?_⟩
  · have todo := kept.todo
    simp only [add, List.length_append, List.length_reverse]
    omega
  · have bounded := kept.bounded
    simp only [add, List.length_append]
    omega
  · dsimp only [add]
    rw [← Multiset.coe_add, ← Multiset.coe_add, Multiset.coe_reverse, ← kept.accounted]
    abel
  · dsimp only at waits
    rw [outside] at waits
    cases waits

omit [DecidableEq W] in
theorem Kept.enters (kept : Kept run 0 s) (i : Option W) (outside : s.threads i = .outside) :
    Locked run i { s with queue := { s.queue with nTotal := s.queue.nTotal + 1 } } := by
  refine ⟨outside, kept.quit, kept.todo, kept.positive, kept.idle, ?_, kept.bounded, kept.accounted,
    kept.verdict, kept.skips, kept.rounds, kept.notified⟩
  have total := kept.total
  dsimp only
  omega

theorem Kept.wakes (kept : Kept run 0 s) (i : Option W) (notified : Bool)
    (waits : s.threads i = .waiting notified) :
    Locked run i { s with
      queue := { s.queue with nIdle := s.queue.nIdle - 1 }
      threads := Function.update s.threads i .outside } := by
  refine ⟨Function.update_self _ _ _, kept.swap i _ .outside 1 kept.quit ?_ ?_ ?_ ?_ kept.bounded ?_ ?_
    fun still => ?_⟩
  · simp [waits]
  · rintro _ _ _ ⟨⟩
  · simp [waits]
  · simp [waits]
  · simp [waits]
  · simp [waits]
  · by_cases master : none = i
    · subst master
      rw [Function.update_self] at still
      cases still
    · rw [Function.update_of_ne master] at still
      exact kept.notified still

theorem Kept.notifies (kept : Kept run 0 s) : Kept run 0 s.notifyMaster := by
  rw [notifyMaster]
  split
  next notified waits =>
    refine kept.swap none s.queue (.waiting true) 0 kept.quit ?_ ?_ ?_ ?_ kept.bounded ?_ ?_
      fun still => ?_
    · simp [waits]
    · rintro _ _ _ ⟨⟩
    · simp [waits]
    · simp [waits]
    · simp [waits]
    · simp [waits]
    · rw [Function.update_self] at still
      cases still
  next => exact kept

omit [Fintype W] in
theorem notifyMaster_threads (s : CheckQueueThreads T W) :
    s.notifyMaster.queue = s.queue ∧ s.notifyMaster.rounds = s.rounds ∧
      s.notifyMaster.threads none ≠ .waiting false ∧
      (s.notifyMaster.threads none = .outside ↔ s.threads none = .outside) ∧
      ∀ w, s.notifyMaster.threads (some w) = s.threads (some w) := by
  rw [notifyMaster]
  split
  next notified waits =>
    refine ⟨rfl, rfl, ?_, ?_, fun w => ?_⟩
    · dsimp only
      rw [Function.update_self]
      rintro ⟨⟩
    · dsimp only
      rw [Function.update_self, waits]
      exact iff_of_false (by rintro ⟨⟩) (by rintro ⟨⟩)
    · dsimp only
      rw [Function.update_of_ne (Option.some_ne_none w)]
  next busy =>
    exact ⟨rfl, rfl, fun waits => busy false waits, Iff.rfl, fun w => rfl⟩

theorem notifyMaster_effort (s : CheckQueueThreads T W) : s.notifyMaster.effort ≤ s.effort + 1 := by
  rw [notifyMaster]
  split
  next notified waits =>
    have changed := s.effort_update none s.queue (.waiting true)
    simp only [waits, weight, ↓reduceIte] at changed
    omega
  next => exact Nat.le_succ _

theorem Kept.cleansUp (kept : Kept run 0 s) (i : Option W) (nNow : Nat) (fOk : Bool)
    (done : s.threads i = .working [] nNow fOk)
    (told : i ≠ none → s.queue.nTodo = nNow → s.threads none ≠ .waiting false) :
    nNow ≤ s.queue.nTodo ∧ Locked run i { s with
      queue := { s.queue with
        fAllOk := s.queue.fAllOk && fOk
        nTodo := s.queue.nTodo - nNow }
      threads := Function.update s.threads i .outside } := by
  have part := Threads.held_le_total held s.threads i
  have todo := kept.todo
  rw [done] at part
  change nNow ≤ _ at part
  refine ⟨by omega, Function.update_self _ _ _, kept.swap i _ .outside 1 kept.quit ?_ ?_ ?_ ?_ ?_ ?_ ?_
    fun still => ?_⟩
  · simp only [done, held]
    omega
  · rintro _ _ _ ⟨⟩
  · simp [done]
  · simp [done]
  · exact (Nat.sub_le _ _).trans kept.bounded
  · simp [done]
  · simp [done]
  · by_cases master : none = i
    · subst master
      rw [Function.update_self] at still
      cases still
    · rw [Function.update_of_ne master] at still
      have more : s.queue.nTodo ≠ nNow := fun same => told (Ne.symm master) same still
      dsimp only
      omega

theorem Kept.works (kept : Kept run 0 s) (i : Option W) (check : T) (vChecks : List T) (nNow : Nat)
    (fOk : Bool) (busy : s.threads i = .working (check :: vChecks) nNow fOk) :
    Kept run 0 { s with
      threads := Function.update s.threads i (.working vChecks nNow (fOk && run check))
      executed := if fOk then check :: s.executed else s.executed
      skipped := if fOk then s.skipped else check :: s.skipped } := by
  have positive := kept.positive i (check :: vChecks) nNow fOk busy
  refine kept.exchange i s.queue _ _ _ 0 kept.quit ?_ ?_ ?_ ?_ kept.bounded ?_ ?_ ?_ fun still => ?_
  · simp [busy]
  · rintro _ _ _ ⟨⟩
    exact positive
  · simp [busy]
  · simp [busy]
  · simp only [busy, carried, ← Multiset.cons_coe]
    cases fOk with
    | true =>
        simp only [↓reduceIte, ← Multiset.cons_coe, ← Multiset.singleton_add]
        abel
    | false =>
        simp only [Bool.false_eq_true, ↓reduceIte, ← Multiset.cons_coe, ← Multiset.singleton_add]
        abel
  · intro rest here
    rw [busy] at here
    cases fOk with
    | true =>
        simp only [failed_working, Bool.true_eq_false, not_false_eq_true, and_true] at here
        simp only [Bool.true_and, failed_working, Bool.not_eq_false, ↓reduceIte, List.all_cons,
          Bool.and_eq_true, ← here]
        tauto
    | false => simpa using here
  · intro some_skipped
    cases fOk with
    | true =>
        have before := kept.skips some_skipped
        simp [before]
    | false =>
        have fails : ¬ s.executed.all run = true := by
          rw [← kept.verdict]
          rintro ⟨_, none_failed⟩
          exact none_failed i (by rw [busy, failed_working])
        exact Bool.eq_false_of_not_eq_true fails
  · by_cases master : none = i
    · subst master
      rw [Function.update_self] at still
      cases still
    · rw [Function.update_of_ne master] at still
      exact kept.notified still

omit [Fintype W] in
theorem Lively.works (lively : s.Lively) (i : Option W) (state next : List T × Nat × Bool)
    (busy : s.threads i = .working state.1 state.2.1 state.2.2) (executed skipped : List T) :
    Lively { s with
      threads := Function.update s.threads i (.working next.1 next.2.1 next.2.2)
      executed
      skipped } := by
  intro waits
  dsimp only at waits ⊢
  by_cases master : none = i
  · subst master
    rw [Function.update_self] at waits
    cases waits
  · rw [Function.update_of_ne master] at waits
    obtain ⟨w, vChecks, nNow, fOk, works⟩ := lively waits
    by_cases same : some w = i
    · exact ⟨w, _, _, _, by rw [same, Function.update_self]⟩
    · exact ⟨w, vChecks, nNow, fOk, by rw [Function.update_of_ne same, works]⟩

theorem Locked.gains {gain : Nat} {i : Option W} {locking : CheckQueueThreads T W} {exit : CCheckQueue T × LoopExit T}
    (left : (i = none ∧ (locking.leave i exit).threads none = .outside ∧
        (locking.leave i exit).rounds.length = locking.rounds.length + 1) ∨
      ((locking.leave i exit).rounds = locking.rounds ∧
        (locking.leave i exit).threads i ≠ .outside ∧
        (∀ j, j ≠ i → (locking.leave i exit).threads j = locking.threads j) ∧
        (locking.leave i exit).effort ≤ locking.effort))
    (rounds : locking.rounds = s.rounds) (inside : i = none → s.threads none ≠ .outside)
    (master : i ≠ none → (locking.threads none = .outside ↔ s.threads none = .outside))
    (less : locking.effort + gain ≤ s.effort) : Gains gain s (locking.leave i exit) := by
  rcases left with ⟨rfl, outside, ended⟩ | ⟨same, stays, others, effort⟩
  · rw [rounds] at ended
    exact .inl ⟨outside, ended⟩
  · refine .inr ⟨same.trans rounds, ?_, (Nat.add_le_add_right effort gain).trans less⟩
    by_cases worker : i = none
    · subst worker
      exact iff_of_false stays (inside rfl)
    · rw [others none (Ne.symm worker)]
      exact master worker

def Steps (run : T → Bool) (s : CheckQueueThreads T W) (event : Event T W) : Prop :=
  ∃ next, s.step run event = some next ∧ (Kept run 0 next ∧ next.Lively) ∧
    (s.threads none ≠ .outside → Gains (s.awake event).toNat s next)

theorem step_works {s : CheckQueueThreads T W} (kept : Kept run 0 s) (lively : s.Lively)
    (i : Option W) (check : T) (vChecks : List T) (nNow : Nat) (fOk : Bool)
    (busy : s.threads i = .working (check :: vChecks) nNow fOk) : Steps run s (.work i) := by
  have next := kept.works i check vChecks nNow fOk busy
  refine ⟨_, ?_, ⟨next, lively.works i (check :: vChecks, nNow, fOk) (vChecks, nNow, _) busy
    _ _⟩, fun _ => .inr ⟨rfl, ?_, ?_⟩⟩
  · cases fOk with
    | true => simp [step, busy]
    | false => simp [step, busy]
  · dsimp only
    by_cases master : none = i
    · subst master
      rw [Function.update_self, busy]
      exact iff_of_false (by rintro ⟨⟩) (by rintro ⟨⟩)
    · rw [Function.update_of_ne master]
  · have changed := s.effort_update i s.queue (.working vChecks nNow (fOk && run check))
    simp only [busy, weight, List.length_cons] at changed
    simp only [awake, busy, hasWork, Bool.toNat_true]
    change effort { s with
      queue := s.queue
      threads := Function.update s.threads i (.working vChecks nNow (fOk && run check)) } +
        1 ≤ _
    omega

def tell (s : CheckQueueThreads T W) (i : Option W) (nNow : Nat) : CheckQueueThreads T W :=
  if s.queue.nTodo = nNow ∧ i ≠ none then s.notifyMaster else s

theorem Kept.tells {s : CheckQueueThreads T W} (kept : Kept run 0 s) (i : Option W) (nNow : Nat) :
    Kept run 0 (s.tell i nNow) ∧ (s.tell i nNow).queue = s.queue ∧
      (s.tell i nNow).threads i = s.threads i ∧
      (i ≠ none → s.queue.nTodo = nNow → (s.tell i nNow).threads none ≠ .waiting false) ∧
      (s.tell i nNow).rounds = s.rounds ∧
      ((s.tell i nNow).threads none = .outside ↔ s.threads none = .outside) ∧
      (s.tell i nNow).effort ≤ s.effort + 1 := by
  by_cases last : s.queue.nTodo = nNow ∧ i ≠ none
  · have same : s.tell i nNow = s.notifyMaster := if_pos last
    obtain ⟨queue, rounds, master, outside, others⟩ := s.notifyMaster_threads
    rw [same]
    refine ⟨kept.notifies, queue, ?_, fun _ _ => master, rounds, outside, s.notifyMaster_effort⟩
    obtain ⟨w, rfl⟩ := Option.ne_none_iff_exists'.mp last.2
    exact others w
  · have same : s.tell i nNow = s := if_neg last
    rw [same]
    exact ⟨kept, rfl, rfl, fun worker all => absurd ⟨all, worker⟩ last, rfl, Iff.rfl, Nat.le_succ _⟩

theorem step_relocks {s : CheckQueueThreads T W} (kept : Kept run 0 s) (i : Option W) (nNow : Nat)
    (fOk : Bool) (busy : s.threads i = .working [] nNow fOk) : Steps run s (.relock i) := by
  obtain ⟨kept, queue, here, master, rounds, outside, effort⟩ := kept.tells i nNow
  rw [← queue] at master
  obtain ⟨enough, locked⟩ := kept.cleansUp i nNow fOk (here.trans busy) master
  obtain ⟨exit, proceeds, next, goes, left⟩ := locked.proceeds
  refine ⟨_, ?_, ⟨next, goes⟩, fun inside =>
    Locked.gains left rounds (fun _ => inside) (fun worker => ?_) ?_⟩
  · rw [leave_locked]
    simp only [step, busy]
    change ((s.tell i nNow).queue.cleanUp i.isNone nNow fOk).map ((s.tell i nNow).leave i) = _
    rw [cleanUp, if_neg (Nat.not_lt.mpr enough)]
    dsimp only at proceeds
    rw [proceeds]
    rfl
  · dsimp only
    rw [Function.update_of_ne (Ne.symm worker), outside]
  · have changed := (s.tell i nNow).effort_update i { (s.tell i nNow).queue with
      fAllOk := (s.tell i nNow).queue.fAllOk && fOk
      nTodo := (s.tell i nNow).queue.nTodo - nNow } .outside
    simp only [here.trans busy, weight, List.length_nil] at changed
    simp only [awake, busy, isDone, Bool.toNat_true]
    omega

theorem step_wakes {s : CheckQueueThreads T W} (kept : Kept run 0 s) (i : Option W)
    (notified : Bool) (waits : s.threads i = .waiting notified) : Steps run s (.wake i) := by
  obtain ⟨exit, proceeds, next, goes, left⟩ := (kept.wakes i notified waits).proceeds
  refine ⟨_, ?_, ⟨next, goes⟩, fun inside =>
    Locked.gains left rfl (fun _ => inside) (fun worker => ?_) ?_⟩
  · rw [leave_locked]
    simp only [step, waits, wake]
    dsimp only at proceeds
    rw [proceeds]
    rfl
  · dsimp only
    rw [Function.update_of_ne (Ne.symm worker)]
  · have changed := s.effort_update i { s.queue with nIdle := s.queue.nIdle - 1 } .outside
    simp only [waits, weight] at changed
    simp only [awake, waits, isNotified]
    cases notified with
    | true =>
        simp only [↓reduceIte] at changed
        simp only [Bool.toNat_true]
        omega
    | false =>
        simp only [Bool.false_eq_true, ↓reduceIte] at changed
        simp only [Bool.toNat_false]
        omega

theorem step_kept (s : CheckQueueThreads T W) (event : Event T W)
    (inv : Kept run 0 s ∧ s.Lively) (allowed : Allowed s event) : Steps run s event := by
  obtain ⟨kept, lively⟩ := inv
  cases event with
  | control =>
      have idle := kept.idle_thread (List.isEmpty_iff.mp allowed.2)
      have outside := outside_of _ allowed.1
      exact ⟨s, by rw [step, if_pos idle], ⟨kept, lively⟩, fun inside => absurd outside inside⟩
  | add vChecks =>
      have outside := outside_of _ allowed
      exact ⟨_, rfl, ⟨kept.adds outside vChecks, lively⟩, fun inside => absurd outside inside⟩
  | enter i =>
      have outside := outside_of _ allowed
      obtain ⟨exit, proceeds, next, goes, left⟩ := (kept.enters i outside).proceeds
      refine ⟨s.leave i exit, ?_, ⟨next, goes⟩, fun inside =>
        Locked.gains left rfl (fun _ => inside) (fun _ => Iff.rfl) (Nat.le_refl _)⟩
      simp only [step, outside, enter]
      rw [proceeds]
      rfl
  | work i =>
      cases busy : s.threads i with
      | outside => simp [Allowed, busy, hasWork] at allowed
      | waiting notified => simp [Allowed, busy, hasWork] at allowed
      | working vChecks nNow fOk =>
          cases vChecks with
          | nil => simp [Allowed, busy, hasWork] at allowed
          | cons check vChecks => exact step_works kept lively i check vChecks nNow fOk busy
  | relock i =>
      cases busy : s.threads i with
      | outside => simp [Allowed, busy, isDone] at allowed
      | waiting notified => simp [Allowed, busy, isDone] at allowed
      | working vChecks nNow fOk =>
          cases vChecks with
          | cons check vChecks => simp [Allowed, busy, isDone] at allowed
          | nil => exact step_relocks kept i nNow fOk busy
  | wake i =>
      cases waits : s.threads i with
      | outside => simp [Allowed, waits, isWaiting] at allowed
      | working vChecks nNow fOk => simp [Allowed, waits, isWaiting] at allowed
      | waiting notified => exact step_wakes kept i notified waits

omit [DecidableEq W] in
theorem start_kept (nBatchSizeIn : Nat) :
    Kept run 0 (start nBatchSizeIn : CheckQueueThreads T W) ∧
      Lively (start nBatchSizeIn : CheckQueueThreads T W) := by
  have nobody {M : Type} [AddCommMonoid M] (f : LoopState T → M) (free : f .outside = 0) :
      Threads.total f (start nBatchSizeIn : CheckQueueThreads T W).threads = 0 :=
    Threads.total_zero f _ fun _ => free
  refine ⟨⟨rfl, ?_, ?_, ?_, ?_, Nat.le_refl 0, ?_, ?_, fun skipped => absurd rfl skipped, ?_, ?_⟩, ?_⟩
  · rw [nobody held rfl]
    rfl
  · rintro _ _ _ _ ⟨⟩
  · rw [nobody idles rfl]
    rfl
  · rw [nobody loops rfl]
    rfl
  · rw [nobody carried rfl]
    rfl
  · exact iff_of_true ⟨rfl, fun i => not_failed_outside⟩ rfl
  · exact fun round mem => absurd mem List.not_mem_nil
  · rintro ⟨⟩
  · rintro ⟨⟩

/-- Every finished call of Wait was right, with nothing added a controller may take the queue, and a
thread that will count itself out of nIdle or nTotal is counted there. -/
structure Sound (run : T → Bool) (s : CheckQueueThreads T W) : Prop where
  rounds : ∀ round ∈ s.rounds, Judged run round
  control : s.added = [] → s.queue.isIdle = true
  nIdle : 0 ≤ s.queue.nIdle ∧ ∀ i notified, s.threads i = .waiting notified → 0 < s.queue.nIdle
  nTotal : 0 ≤ s.queue.nTotal ∧ ∀ i, s.threads i ≠ .outside → 0 < s.queue.nTotal

omit [DecidableEq W] in
theorem counted (count : LoopState T → Nat) (i : Option W)
    (counts : 0 < count (s.threads i)) : (0 : Int) < Threads.total count s.threads := by
  have part := Threads.held_le_total count s.threads i
  omega

omit [DecidableEq W] in
theorem Kept.sound (kept : Kept run 0 s) : Sound run s := by
  refine ⟨kept.rounds, kept.idle_thread, ⟨?_, ?_⟩, ⟨?_, ?_⟩⟩
  · rw [kept.idle]
    exact Int.natCast_nonneg _
  · intro i notified waits
    rw [kept.idle]
    exact counted idles i (by simp [waits])
  · rw [kept.total]
    exact Int.natCast_nonneg _
  · intro i inside
    rw [kept.total]
    refine counted loops i ?_
    cases at_i : s.threads i with
    | outside => exact absurd at_i inside
    | waiting notified => exact Nat.one_pos
    | working vChecks nNow fOk => exact Nat.one_pos

/-- Whatever the threads do when: no pop from an empty queue and no counter below zero, the
assertion of CCheckQueueControl holds, and Wait returns whether all checks pass. -/
theorem checkQueue_waits (run : T → Bool) (nBatchSizeIn : Nat) (events : List (Event T W))
    (along : Machine.Along Allowed (fun s => step s run) (start nBatchSizeIn) events) :
    Machine.SafeRun (fun s => step s run) (Sound run) (start nBatchSizeIn) events := by
  refine Machine.safeRun_of_along _ Allowed (fun s => Kept run 0 s ∧ s.Lively) (Sound run)
    (fun s inv => inv.1.sound) ?_ _ events (start_kept nBatchSizeIn) along
  intro s event inv allowed
  obtain ⟨next, stepped, kept, _⟩ := step_kept s event inv allowed
  exact ⟨next, stepped, kept⟩

/-- A worker, and a thread that comes for a check that fails: Wait returns false. -/
theorem checkQueue_waits_failing :
    Machine.SafeRun (fun s => step s id) (Sound id) (start 1 : CheckQueueThreads Bool Unit)
      [.enter (some ()), .control, .add [true, false], .wake (some ()), .enter none, .work none,
        .relock none, .work (some ()), .relock (some ()), .wake none] :=
  checkQueue_waits id 1 _ (by decide)

omit [Fintype W] [DecidableEq W] in
theorem exists_awake (i : Option W) (vChecks : List T) (nNow : Nat) (fOk : Bool)
    (busy : s.threads i = .working vChecks nNow fOk) :
    ∃ event, Allowed s event ∧ s.awake event = true := by
  cases vChecks with
  | nil => exact ⟨.relock i, by rw [Allowed, busy, isDone], by rw [awake, busy, isDone]⟩
  | cons check vChecks => exact ⟨.work i, by rw [Allowed, busy, hasWork], by rw [awake, busy, hasWork]⟩

/-- A call of Wait cannot be stuck, and no run goes on for more than the effort without its return. -/
theorem checkQueue_returns (run : T → Bool) (nBatchSizeIn : Nat) (events : List (Event T W))
    (s : CheckQueueThreads T W)
    (along : Machine.Along Allowed (fun s => step s run) (start nBatchSizeIn) events)
    (ran : Machine.run (fun s => step s run) (start nBatchSizeIn) events = some s)
    (inside : s.threads none ≠ .outside) :
    (∃ event, Allowed s event ∧ s.awake event = true) ∧
      ∀ later, Machine.Along Allowed (fun s => step s run) s later →
        s.effort < Machine.count awake (fun s => step s run) s later →
        ∃ first, first <+: later ∧ ∃ mid, Machine.run (fun s => step s run) s first = some mid ∧
          mid.threads none = .outside ∧ mid.rounds.length = s.rounds.length + 1 := by
  have reached : Kept run 0 s ∧ s.Lively := by
    refine Machine.run_invariant _ Allowed (fun s => Kept run 0 s ∧ s.Lively)
      (fun s event next inv allowed taken => ?_) _ s events (start_kept nBatchSizeIn) along ran
    obtain ⟨other, stepped, kept, _⟩ := step_kept s event inv allowed
    rw [taken] at stepped
    cases stepped
    exact kept
  refine ⟨?_, fun later allowed more => ?_⟩
  · cases master : s.threads none with
    | outside => exact absurd master inside
    | working vChecks nNow fOk => exact exists_awake none vChecks nNow fOk master
    | waiting notified =>
        cases notified with
        | true =>
            exact ⟨.wake none, by rw [Allowed, master, isWaiting], by rw [awake, master, isNotified]⟩
        | false =>
            obtain ⟨w, vChecks, nNow, fOk, busy⟩ := reached.2 master
            exact exists_awake (some w) vChecks nNow fOk busy
  · refine Machine.exists_end _ Allowed awake
      (fun now => (Kept run 0 now ∧ now.Lively) ∧ now.threads none ≠ .outside ∧ now.rounds = s.rounds)
      _ effort ?_ s later ⟨reached, inside, rfl⟩ allowed more
    rintro now event ⟨inv, waits, rounds⟩ here
    obtain ⟨next, stepped, kept, gains⟩ := step_kept now event inv here
    refine ⟨next, stepped, ?_⟩
    rcases gains waits with ⟨outside, ended⟩ | ⟨same, still, less⟩
    · exact .inl ⟨outside, by rw [ended, rounds]⟩
    · exact .inr ⟨⟨kept, fun outside => waits (still.mp outside), same.trans rounds⟩, less⟩

/-- With a worker that wakes for nothing, the master does all the work. -/
theorem checkQueue_returns_alone :
    ∃ s : CheckQueueThreads Bool Unit,
      Machine.run (fun s => step s id) (start 1) [.enter (some ()), .add [true], .enter none] = some s ∧
        ∃ first, first <+: [.wake (some ()), .work none, .relock none, .control, .add [true],
            .enter none, .work none, .relock none] ∧
          ∃ mid, Machine.run (fun s => step s id) s first = some mid ∧
            mid.threads none = .outside ∧ mid.rounds.length = s.rounds.length + 1 :=
  ⟨_, rfl, (checkQueue_returns id 1 [.enter (some ()), .add [true], .enter none] _ (by decide) rfl
    (by decide)).2 _ (by decide) (by decide)⟩

end runs

end CheckQueueThreads

end CryptoYen
