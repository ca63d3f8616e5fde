import CryptoYen.Library.Machine
import CryptoYen.Wallet.KeyPool

set_option autoImplicit false

namespace CryptoYen

namespace KeyPool

-- No key is handed out after it was kept; the latest event comes first.
def NeverReissued : List KeyEvent → Prop
  | [] => True
  | .handedOut key :: earlier => .kept key ∉ earlier ∧ NeverReissued earlier
  | .kept _ :: earlier => NeverReissued earlier

structure OneHolder (s : KeyPool) : Prop where
  apart : ∀ holder other, holder ≠ other →
    (s.holders holder).nIndex = (s.holders other).nIndex → (s.holders holder).nIndex = -1
  free : ∀ holder, (s.holders holder).nIndex ∉ s.setKeyPool
  stored : ∀ nIndex ∈ s.setKeyPool, ∃ key, s.records.lookup nIndex = some key
  keptForGood : NeverReissued s.history

def Live (s : KeyPool) (nIndex : Int) : Prop :=
  nIndex ∈ s.setKeyPool ∨ ∃ holder, (s.holders holder).nIndex = nIndex ∧ nIndex ≠ -1

structure Sound (s : KeyPool) : Prop where
  apart : ∀ holder other, holder ≠ other →
    (s.holders holder).nIndex = (s.holders other).nIndex → (s.holders holder).nIndex = -1
  free : ∀ holder, (s.holders holder).nIndex ∉ s.setKeyPool
  positive : ∀ nIndex, s.Live nIndex → 1 ≤ nIndex
  stored : ∀ nIndex, s.Live nIndex → ∃ key < s.nGenerated, s.records.lookup nIndex = some key
  held : ∀ holder, (s.holders holder).nIndex ≠ -1 →
    s.records.lookup (s.holders holder).nIndex = (s.holders holder).vchPubKey
  distinct : ∀ nIndex other key, s.Live nIndex → s.Live other →
    s.records.lookup nIndex = some key → s.records.lookup other = some key → nIndex = other
  dead : ∀ key, .kept key ∈ s.history →
    key < s.nGenerated ∧ ∀ nIndex, s.Live nIndex → s.records.lookup nIndex ≠ some key
  keptForGood : NeverReissued s.history

/-- A top-up to this size takes no index that somebody holds. -/
def AllocatesFree (s : KeyPool) (size : Nat) : Prop :=
  ∀ holder, (s.holders holder).nIndex < nEnd s.setKeyPool ∨
    nEnd s.setKeyPool + (size - s.setKeyPool.card : Nat) ≤ (s.holders holder).nIndex

def FreshIndices (cfg : KeyPoolConfig) (s : KeyPool) : KeyPoolOp → Prop
  | .topUpKeyPool kpSize => s.fLocked = false → s.AllocatesFree (poolSize cfg kpSize)
  | .getReservedKey holder =>
      (s.holders holder).nIndex = -1 → s.fLocked = false → s.AllocatesFree (poolSize cfg 0)
  | _ => True

variable {s : KeyPool}

theorem Sound.oneHolder (sound : s.Sound) : s.OneHolder where
  apart := sound.apart
  free := sound.free
  stored nIndex member := by
    obtain ⟨key, _, known⟩ := sound.stored nIndex (.inl member)
    exact ⟨key, known⟩
  keptForGood := sound.keptForGood

theorem empty_not_live (nIndex : Int) : ¬ empty.Live nIndex := by
  intro live
  cases live with
  | inl member => cases member
  | inr held =>
      obtain ⟨_, same, used⟩ := held
      exact used same.symm

theorem empty_sound : empty.Sound where
  apart := fun _ _ _ _ => rfl
  free := fun _ member => by cases member
  positive := fun nIndex live => absurd live (empty_not_live nIndex)
  stored := fun nIndex live => absurd live (empty_not_live nIndex)
  held := fun _ used => absurd rfl used
  distinct := fun nIndex _ _ live => absurd live (empty_not_live nIndex)
  dead := fun _ kept => by cases kept
  keptForGood := trivial

theorem live_addKey (nIndex : Int) :
    s.addKey.Live nIndex ↔ nIndex = nEnd s.setKeyPool ∨ s.Live nIndex := by
  simp only [Live, addKey, Finset.mem_insert, or_assoc]

theorem addKey_sound (sound : s.Sound)
    (unheld : ∀ holder, (s.holders holder).nIndex ≠ nEnd s.setKeyPool) : s.addKey.Sound := by
  have unused : ∀ nIndex, s.Live nIndex → nIndex ≠ nEnd s.setKeyPool := by
    intro nIndex live same
    cases live with
    | inl member => exact nEnd_notMem s.setKeyPool (same ▸ member)
    | inr held =>
        obtain ⟨holder, holds, _⟩ := held
        exact unheld holder (holds.trans same)
  have before : ∀ nIndex, s.Live nIndex →
      s.addKey.records.lookup nIndex = s.records.lookup nIndex := by
    intro nIndex live
    exact AList.lookup_insert_ne (unused nIndex live)
  have new : s.addKey.records.lookup (nEnd s.setKeyPool) = some s.nGenerated :=
    AList.lookup_insert _
  constructor
  case apart => exact sound.apart
  case free =>
    intro holder member
    cases Finset.mem_insert.mp member with
    | inl same => exact unheld holder same
    | inr inside => exact sound.free holder inside
  case positive =>
    intro nIndex live
    cases (live_addKey nIndex).mp live with
    | inl same =>
        rw [same]
        exact nEnd_positive s.setKeyPool fun other member => sound.positive other (.inl member)
    | inr live => exact sound.positive nIndex live
  case stored =>
    intro nIndex live
    cases (live_addKey nIndex).mp live with
    | inl same => exact ⟨s.nGenerated, Nat.lt_succ_self _, same ▸ new⟩
    | inr live =>
        obtain ⟨key, generated, known⟩ := sound.stored nIndex live
        exact ⟨key, Nat.lt_succ_of_lt generated, (before nIndex live).trans known⟩
  case held =>
    intro holder used
    exact (before _ (.inr ⟨holder, rfl, used⟩)).trans (sound.held holder used)
  case distinct =>
    intro nIndex other key live live' first second
    have old : ∀ index, s.Live index → s.addKey.records.lookup index ≠ some s.nGenerated := by
      intro index live again
      obtain ⟨key, generated, known⟩ := sound.stored index live
      rw [before index live, known] at again
      cases again
      exact Nat.lt_irrefl _ generated
    cases (live_addKey nIndex).mp live with
    | inl same =>
        rw [same, new] at first
        cases first
        cases (live_addKey other).mp live' with
        | inl same' => rw [same, same']
        | inr live' => exact absurd second (old other live')
    | inr live =>
        cases (live_addKey other).mp live' with
        | inl same' =>
            rw [same', new] at second
            cases second
            exact absurd first (old nIndex live)
        | inr live' =>
            rw [before nIndex live] at first
            rw [before other live'] at second
            exact sound.distinct nIndex other key live live' first second
  case dead =>
    intro key kept
    have ⟨generated, gone⟩ := sound.dead key kept
    refine ⟨Nat.lt_succ_of_lt generated, fun nIndex live again => ?_⟩
    cases (live_addKey nIndex).mp live with
    | inl same =>
        rw [same, new] at again
        cases again
        exact Nat.lt_irrefl _ generated
    | inr live =>
        rw [before nIndex live] at again
        exact gone nIndex live again
  case keptForGood => exact sound.keptForGood

theorem fillPool_sound (sound : s.Sound) (size : Nat) (free : s.AllocatesFree size) :
    (s.fillPool size).Sound := by
  suffices rounds : ∀ n ≤ size - s.setKeyPool.card, (addKey^[n] s).Sound from rounds _ le_rfl
  intro n
  induction n with
  | zero => exact fun _ => sound
  | succ n ih =>
      intro below
      rw [Function.iterate_succ_apply']
      refine addKey_sound (ih (by omega)) fun holder => ?_
      rw [addKeys_holders, addKeys_nEnd]
      have apart := free holder
      omega

theorem Sound.moved {t : KeyPool} (sound : s.Sound) (records : t.records = s.records)
    (generated : t.nGenerated = s.nGenerated) (live : ∀ nIndex, t.Live nIndex → s.Live nIndex)
    (apart : ∀ holder other, holder ≠ other →
      (t.holders holder).nIndex = (t.holders other).nIndex → (t.holders holder).nIndex = -1)
    (free : ∀ holder, (t.holders holder).nIndex ∉ t.setKeyPool)
    (held : ∀ holder, (t.holders holder).nIndex ≠ -1 →
      s.records.lookup (t.holders holder).nIndex = (t.holders holder).vchPubKey)
    (kept : ∀ key, .kept key ∈ t.history → .kept key ∈ s.history)
    (keptForGood : NeverReissued t.history) : t.Sound := by
  constructor
  case apart => exact apart
  case free => exact free
  case positive => exact fun nIndex here => sound.positive nIndex (live nIndex here)
  case stored =>
    intro nIndex here
    rw [records, generated]
    exact sound.stored nIndex (live nIndex here)
  case held => exact records ▸ held
  case distinct =>
    intro nIndex other key here there
    rw [records]
    exact sound.distinct nIndex other key (live nIndex here) (live other there)
  case dead =>
    intro key gone
    have ⟨below, absent⟩ := sound.dead key (kept key gone)
    rw [records, generated]
    exact ⟨below, fun nIndex here => absent nIndex (live nIndex here)⟩
  case keptForGood => exact keptForGood

theorem lock_sound (sound : s.Sound) (fLocked : Bool) : { s with fLocked := fLocked }.Sound :=
  sound.moved rfl rfl (fun _ live => live) sound.apart sound.free sound.held (fun _ kept => kept)
    sound.keptForGood

theorem update_apart (sound : s.Sound) (holder : Nat) (key : CReserveKey)
    (nobody : ∀ other, (s.holders other).nIndex = key.nIndex → key.nIndex = -1) :
    ∀ first second, first ≠ second →
      (Function.update s.holders holder key first).nIndex =
        (Function.update s.holders holder key second).nIndex →
      (Function.update s.holders holder key first).nIndex = -1 := by
  intro first second differ same
  by_cases here : first = holder
  next =>
    subst here
    rw [Function.update_self, Function.update_of_ne differ.symm] at same
    rw [Function.update_self]
    exact nobody second same.symm
  next =>
    rw [Function.update_of_ne here] at same ⊢
    by_cases there : second = holder
    next =>
      subst there
      rw [Function.update_self] at same
      exact same.trans (nobody first same)
    next =>
      rw [Function.update_of_ne there] at same
      exact sound.apart first second differ same

theorem handOut_sound (sound : s.Sound) (holder : Nat) (nIndex : Int) (key : CPubKey)
    (member : nIndex ∈ s.setKeyPool) (known : s.records.lookup nIndex = some key) :
    (({ s with setKeyPool := s.setKeyPool.erase nIndex }.setHolder holder
      ⟨nIndex, some key⟩).record .handedOut (some key)).Sound := by
  have inPool : s.Live nIndex := .inl member
  refine sound.moved rfl rfl ?_ ?_ ?_ ?_ ?_ ?_
  case refine_1 =>
    intro other live
    cases live with
    | inl left => exact .inl (Finset.mem_of_mem_erase left)
    | inr held =>
        obtain ⟨peer, holds, used⟩ := held
        simp only [setHolder, record] at holds
        by_cases here : peer = holder
        next =>
          subst here
          rw [Function.update_self] at holds
          exact holds ▸ inPool
        next =>
          rw [Function.update_of_ne here] at holds
          exact .inr ⟨peer, holds, used⟩
  case refine_2 =>
    refine update_apart sound holder ⟨nIndex, some key⟩ fun other same => ?_
    have outside := sound.free other
    rw [same] at outside
    exact absurd member outside
  case refine_3 =>
    intro peer left
    simp only [setHolder, record] at left
    by_cases here : peer = holder
    next =>
      subst here
      rw [Function.update_self] at left
      exact Finset.notMem_erase nIndex s.setKeyPool left
    next =>
      rw [Function.update_of_ne here] at left
      exact sound.free peer (Finset.mem_of_mem_erase left)
  case refine_4 =>
    intro peer used
    simp only [setHolder, record] at used ⊢
    by_cases here : peer = holder
    next =>
      subst here
      rw [Function.update_self]
      exact known
    next =>
      rw [Function.update_of_ne here] at used ⊢
      exact sound.held peer used
  case refine_5 =>
    intro other kept
    simpa [record, setHolder] using kept
  case refine_6 =>
    refine ⟨fun kept => ?_, sound.keptForGood⟩
    exact (sound.dead key kept).2 nIndex inPool known

theorem minus_one_notMem (sound : s.Sound) : (-1 : Int) ∉ s.setKeyPool := by
  intro member
  have positive := sound.positive (-1) (.inl member)
  omega

theorem live_dropped (sound : s.Sound) (holder : Nat) (nIndex : Int)
    (live : (s.setHolder holder .unused).Live nIndex) :
    s.Live nIndex ∧ ((s.holders holder).nIndex ≠ -1 → nIndex ≠ (s.holders holder).nIndex) := by
  cases live with
  | inl member => exact ⟨.inl member, fun _ same => sound.free holder (same ▸ member)⟩
  | inr held =>
      obtain ⟨peer, holds, used⟩ := held
      simp only [setHolder] at holds
      by_cases here : peer = holder
      next =>
        subst here
        rw [Function.update_self] at holds
        exact absurd holds.symm used
      next =>
        rw [Function.update_of_ne here] at holds
        refine ⟨.inr ⟨peer, holds, used⟩, fun mine same => ?_⟩
        exact mine (sound.apart holder peer (Ne.symm here) (same.symm.trans holds.symm))

theorem drop_sound (sound : s.Sound) (holder : Nat) (setKeyPool : Finset Int)
    (returned : ∀ nIndex ∈ setKeyPool, nIndex ∈ s.setKeyPool ∨
      (nIndex = (s.holders holder).nIndex ∧ nIndex ≠ -1)) :
    ({ s with setKeyPool := setKeyPool }.setHolder holder .unused).Sound := by
  have elsewhere : ∀ peer, peer ≠ holder →
      Function.update s.holders holder .unused peer = s.holders peer :=
    fun peer here => Function.update_of_ne here _ _
  refine sound.moved rfl rfl ?_ ?_ ?_ ?_ (fun _ kept => kept) sound.keptForGood
  case refine_1 =>
    intro nIndex live
    cases live with
    | inl member =>
        cases returned nIndex member with
        | inl before => exact .inl before
        | inr back => exact .inr ⟨holder, back.1.symm, back.2⟩
    | inr held => exact (live_dropped sound holder nIndex (.inr held)).1
  case refine_2 => exact update_apart sound holder .unused fun _ _ => rfl
  case refine_3 =>
    intro peer member
    simp only [setHolder] at member
    by_cases here : peer = holder
    next =>
      subst here
      rw [Function.update_self] at member
      cases returned (-1) member with
      | inl before => exact minus_one_notMem sound before
      | inr back => exact back.2 rfl
    next =>
      rw [elsewhere peer here] at member
      cases returned _ member with
      | inl before => exact sound.free peer before
      | inr back => exact back.2 (sound.apart peer holder here back.1)
  case refine_4 =>
    intro peer used
    simp only [setHolder] at used ⊢
    by_cases here : peer = holder
    next =>
      subst here
      rw [Function.update_self] at used
      exact absurd rfl used
    next =>
      rw [elsewhere peer here] at used ⊢
      exact sound.held peer used

theorem returnReserved_sound (sound : s.Sound) (holder : Nat) :
    (s.returnReserved holder).Sound := by
  simp only [returnReserved]
  split
  next => exact drop_sound sound holder s.setKeyPool fun _ member => .inl member
  next used =>
    refine drop_sound sound holder _ fun nIndex member => ?_
    cases Finset.mem_insert.mp member with
    | inl same => exact .inr ⟨same, same ▸ used⟩
    | inr before => exact .inl before

theorem retire_sound (cfg : KeyPoolConfig) (sound : s.Sound) (nIndex : Int) (key : CPubKey)
    (idle : ¬ s.Live nIndex) (generated : key < s.nGenerated)
    (gone : ∀ other, s.Live other → s.records.lookup other ≠ some key) :
    ((s.keepKey cfg nIndex).record .kept (some key)).Sound := by
  have records : ∀ other, s.Live other →
      (s.keepKey cfg nIndex).records.lookup other = s.records.lookup other := by
    intro other live
    have differs : other ≠ nIndex := fun same => idle (same ▸ live)
    simp only [keepKey]
    split
    next => exact AList.lookup_erase_ne differs
    next => rfl
  have same : (s.keepKey cfg nIndex).holders = s.holders ∧
      (s.keepKey cfg nIndex).setKeyPool = s.setKeyPool ∧
      (s.keepKey cfg nIndex).nGenerated = s.nGenerated ∧
      (s.keepKey cfg nIndex).history = s.history := by
    simp only [keepKey]
    split
    next => exact ⟨rfl, rfl, rfl, rfl⟩
    next => exact ⟨rfl, rfl, rfl, rfl⟩
  obtain ⟨holders, pool, keys, history⟩ := same
  have lives : ∀ other, ((s.keepKey cfg nIndex).record .kept (some key)).Live other ↔
      s.Live other := by
    intro other
    simp only [Live, record, holders, pool]
  constructor
  case apart => simpa only [record, holders] using sound.apart
  case free => simpa only [record, holders, pool] using sound.free
  case positive => exact fun other live => sound.positive other ((lives other).mp live)
  case stored =>
    intro other live
    have here := (lives other).mp live
    simp only [record, records other here, keys]
    exact sound.stored other here
  case held =>
    intro peer used
    simp only [record] at used ⊢
    rw [holders] at used ⊢
    rw [records _ (.inr ⟨peer, rfl, used⟩)]
    exact sound.held peer used
  case distinct =>
    intro first second shared live live'
    have here := (lives first).mp live
    have there := (lives second).mp live'
    simp only [record, records first here, records second there]
    exact sound.distinct first second shared here there
  case dead =>
    intro other kept
    simp only [record, history, List.mem_cons, KeyEvent.kept.injEq, keys] at kept ⊢
    cases kept with
    | inl same =>
        subst same
        refine ⟨generated, fun index live => ?_⟩
        have here := (lives index).mp live
        rw [records index here]
        exact gone index here
    | inr before =>
        have ⟨below, absent⟩ := sound.dead other before
        refine ⟨below, fun index live => ?_⟩
        have here := (lives index).mp live
        rw [records index here]
        exact absent index here
  case keptForGood =>
    simp only [record, history, NeverReissued]
    exact sound.keptForGood

theorem keepReserved_sound (cfg : KeyPoolConfig) (sound : s.Sound) (holder : Nat) :
    (s.keepReserved cfg holder).Sound := by
  simp only [keepReserved]
  have dropped := drop_sound sound holder s.setKeyPool fun _ member => .inl member
  split
  next => exact dropped
  next used =>
    have mine : s.Live (s.holders holder).nIndex := .inr ⟨holder, rfl, used⟩
    obtain ⟨key, generated, known⟩ := sound.stored _ mine
    have held := sound.held holder used
    rw [known] at held
    rw [← held]
    have retired := retire_sound cfg dropped (s.holders holder).nIndex key
      (fun live => (live_dropped sound holder _ live).2 used rfl) generated
      (fun other live again => (live_dropped sound holder other live).2 used
        (sound.distinct other _ key (live_dropped sound holder other live).1 mine again known))
    have commutes : (((s.keepKey cfg (s.holders holder).nIndex).record .kept (some key)).setHolder
        holder .unused) =
        ((s.setHolder holder .unused).keepKey cfg (s.holders holder).nIndex).record .kept
          (some key) := by
      simp only [keepKey]
      split
      next => rfl
      next => rfl
    rw [commutes]
    exact retired

theorem handAgain_sound (sound : s.Sound) (holder : Nat) (used : (s.holders holder).nIndex ≠ -1) :
    (s.record .handedOut (s.holders holder).vchPubKey).Sound := by
  have mine : s.Live (s.holders holder).nIndex := .inr ⟨holder, rfl, used⟩
  obtain ⟨key, _, known⟩ := sound.stored _ mine
  have held := sound.held holder used
  rw [known] at held
  rw [← held]
  refine sound.moved rfl rfl (fun _ live => live) sound.apart sound.free sound.held ?_ ?_
  next =>
    intro other kept
    simpa [record] using kept
  next => exact ⟨fun kept => (sound.dead key kept).2 _ mine known, sound.keptForGood⟩

theorem topUp_sound (cfg : KeyPoolConfig) (sound : s.Sound) (kpSize : Nat)
    (free : s.fLocked = false → s.AllocatesFree (poolSize cfg kpSize)) :
    (s.topUpKeyPool cfg kpSize).1.Sound := by
  simp only [topUpKeyPool]
  split
  next => exact sound
  next unlocked => exact fillPool_sound sound _ (free (by simpa using unlocked))

theorem reserve_eq (cfg : KeyPoolConfig) (s : KeyPool) :
    s.reserveKeyFromKeyPool cfg = (s.topUpKeyPool cfg 0).1.takeOldest := by
  rw [reserveKeyFromKeyPool]
  congr 1
  simp only [topUpKeyPool]
  split
  next => rfl
  next => rfl

theorem takeOldest_of_min {nIndex : Int} (oldest : s.setKeyPool.min = nIndex) :
    s.takeOldest = ({ s with setKeyPool := s.setKeyPool.erase nIndex }, nIndex,
      s.records.lookup nIndex) := by
  rw [takeOldest, oldest]

theorem topUp_holders (cfg : KeyPoolConfig) (s : KeyPool) (kpSize : Nat) :
    (s.topUpKeyPool cfg kpSize).1.holders = s.holders := by
  simp only [topUpKeyPool]
  split
  next => rfl
  next => exact addKeys_holders s _

theorem getReservedKey_sound (cfg : KeyPoolConfig) (sound : s.Sound) (holder : Nat)
    (free : FreshIndices cfg s (.getReservedKey holder)) : (s.getReservedKey cfg holder).Sound := by
  simp only [getReservedKey]
  split
  next unused =>
    have filled := topUp_sound cfg sound 0 (free unused)
    have holders := topUp_holders cfg s 0
    rw [reserve_eq]
    generalize (s.topUpKeyPool cfg 0).1 = t at filled holders
    cases first : t.setKeyPool.min with
    | top =>
        have none_left : t.takeOldest = (t, -1, none) := by rw [takeOldest, first]
        have same : t.setHolder holder ⟨-1, none.or (s.holders holder).vchPubKey⟩ = t := by
          have key : (⟨-1, none.or (s.holders holder).vchPubKey⟩ : CReserveKey) =
              t.holders holder := by
            rw [holders, ← unused]
            rfl
          rw [setHolder, key, Function.update_eq_self]
        simpa only [none_left, same, record] using filled
    | coe nIndex =>
        have member := Finset.mem_of_min first
        obtain ⟨key, _, known⟩ := filled.stored nIndex (.inl member)
        have handed := handOut_sound filled holder nIndex key member known
        simpa only [takeOldest_of_min first, known, Option.some_or] using handed
  next used => exact handAgain_sound sound holder used

theorem step_sound (cfg : KeyPoolConfig) (s : KeyPool) (op : KeyPoolOp) (next : KeyPool)
    (sound : s.Sound) (stepped : s.step cfg op = some next) (fresh : FreshIndices cfg s op) :
    next.Sound := by
  cases op with
  | topUpKeyPool kpSize =>
      cases stepped
      exact topUp_sound cfg sound kpSize fresh
  | getReservedKey holder =>
      cases stepped
      exact getReservedKey_sound cfg sound holder fresh
  | keepKey holder =>
      cases stepped
      exact keepReserved_sound cfg sound holder
  | returnKey holder =>
      cases stepped
      exact returnReserved_sound sound holder
  | lock =>
      cases stepped
      exact lock_sound sound true
  | unlock =>
      cases stepped
      exact lock_sound sound false

theorem taken_of_not_free (s : KeyPool) (size : Nat) (taken : ¬ s.AllocatesFree size) :
    ∃ holder, nEnd s.setKeyPool ≤ (s.holders holder).nIndex ∧
      (s.holders holder).nIndex ∈ (s.fillPool size).setKeyPool := by
  simp only [AllocatesFree, not_forall, not_or, not_lt, not_le] at taken
  obtain ⟨holder, above, below⟩ := taken
  exact ⟨holder, above, (mem_addKeys s _ _).mpr (.inr ⟨above, below⟩)⟩

theorem step_fresh (cfg : KeyPoolConfig) (s : KeyPool) (op : KeyPoolOp) (next : KeyPool)
    (sound : s.Sound) (stepped : s.step cfg op = some next) (safe : next.OneHolder) :
    FreshIndices cfg s op := by
  cases op with
  | topUpKeyPool kpSize =>
      intro unlocked
      by_contra taken
      obtain ⟨holder, _, member⟩ := taken_of_not_free s _ taken
      cases stepped
      have free := safe.free holder
      rw [topUp_holders] at free
      simp only [topUpKeyPool, unlocked, Bool.false_eq_true, if_false] at free
      exact free member
  | getReservedKey holder =>
      intro unused unlocked
      by_contra taken
      obtain ⟨owner, above, member⟩ := taken_of_not_free s _ taken
      have positive := nEnd_positive s.setKeyPool fun nIndex inside =>
        sound.positive nIndex (.inl inside)
      have differ : owner ≠ holder := by
        intro same
        rw [same, unused] at above
        omega
      have filled : (s.topUpKeyPool cfg 0).1 = s.fillPool (poolSize cfg 0) := by
        simp [topUpKeyPool, unlocked]
      obtain ⟨first, oldest⟩ := Finset.min_of_mem member
      have same : next.holders = Function.update s.holders holder
            ⟨first, ((s.fillPool (poolSize cfg 0)).records.lookup first).or
              (s.holders holder).vchPubKey⟩ ∧
          next.setKeyPool = (s.fillPool (poolSize cfg 0)).setKeyPool.erase first := by
        cases stepped
        have holders : (s.fillPool (poolSize cfg 0)).holders = s.holders := addKeys_holders s _
        simp only [getReservedKey, unused, if_true, reserve_eq, filled, takeOldest_of_min oldest,
          record_holders, record_setKeyPool, setHolder, holders, and_self]
      by_cases here : (s.holders owner).nIndex = first
      next =>
        have apart := safe.apart owner holder differ
        rw [same.1, Function.update_of_ne differ, Function.update_self] at apart
        have sentinel := apart here
        omega
      next =>
        have free := safe.free owner
        rw [same.1, same.2, Function.update_of_ne differ] at free
        exact free (Finset.mem_erase.mpr ⟨here, member⟩)
  | keepKey | returnKey | lock | unlock => trivial

theorem run_oneHolder_iff (cfg : KeyPoolConfig) (ops : List KeyPoolOp) :
    (∀ first, first <+: ops → ∀ final, Machine.run (step cfg) empty first = some final →
        final.OneHolder) ↔
      Machine.Along (FreshIndices cfg) (step cfg) empty ops :=
  Machine.safe_prefixes_iff (step cfg) (fun _ => True) (FreshIndices cfg) Sound OneHolder
    (fun s op => by cases op <;> exact ⟨_, rfl⟩) (fun _ sound => sound.oneHolder)
    (fun s op next _ => step_sound cfg s op next) (fun s op next _ => step_fresh cfg s op next)
    empty ops (fun _ _ => trivial) empty_sound

end KeyPool

namespace EmptyPool

def cfg : KeyPoolConfig := ⟨0, true⟩

def ops : List KeyPoolOp := [.getReservedKey 0, .getReservedKey 1]

end EmptyPool

open EmptyPool in
theorem drained_pool_shared :
    ∃ final, Machine.run (KeyPool.step cfg) .empty ops = some final ∧
      (final.holders 0).nIndex = 1 ∧ (final.holders 1).nIndex = 1 ∧ ¬ final.OneHolder := by
  refine ⟨_, rfl, by decide +kernel, by decide +kernel, fun safe => ?_⟩
  have sentinel := safe.apart 0 1 (by decide) (by decide +kernel)
  exact absurd sentinel (by decide +kernel)

end CryptoYen
