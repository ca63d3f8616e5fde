import CryptoYen.Coins.Cache
import CryptoYen.Coins.Restore
import CryptoYen.Library.Assoc

set_option autoImplicit false

namespace CryptoYen

open WriteBack CCoinsViewCache

abbrev PlainCoins := Uint256 → Option CleanCoins

namespace PlainCoins

def of (coins : Uint256 → Option CleanCoins) : PlainCoins := fun txid =>
  (coins txid).filter fun record => !record.isPruned

def modify (plain : PlainCoins) (txid : Uint256) (edit : CoinsEdit) : PlainCoins :=
  let coins := edit.settled ((plain txid).getD CleanCoins.empty)
  Function.update plain txid (if coins.isPruned then none else some coins)

def step : List PlainCoins → CacheOp → List PlainCoins
  | top :: rest, .modifyCoins txid edit => top.modify txid edit :: rest
  | plain, .flush level => plain.set (level + 1) (plain.getD level fun _ => none)
  | top :: rest, .push => top :: top :: rest
  | _ :: rest, .drop => rest
  | plain, _ => plain

end PlainCoins

def column (caches : List CCoinsViewCache) (txid : Uint256) : Column CleanCoins :=
  caches.map fun cache => cache.cacheCoins.lookup txid

def CacheStack.levels (stack : CacheStack) (txid : Uint256) : List (Option CleanCoins) :=
  WriteBack.levels CleanCoins.isPruned (stack.db.coins txid) (column stack.caches txid)

structure Simulates (stack : CacheStack) (plain : List PlainCoins) : Prop where
  linked : ∀ txid, Linked CleanCoins.isPruned (stack.db.coins txid) (column stack.caches txid)
  shown : ∀ txid, stack.levels txid = plain.map fun level => level txid

theorem simulates_length (stack : CacheStack) (plain : List PlainCoins)
    (simulates : Simulates stack plain) : plain.length = stack.caches.length + 1 := by
  have shown := congrArg List.length (simulates.shown 0)
  rw [CacheStack.levels, levels_length, List.length_map, column, List.length_map] at shown
  exact shown.symm

theorem respects_settled (edit : CoinsEdit) (respects : edit.Respects) :
    Respects CleanCoins.isPruned edit.settled := by
  intro a b first second
  have same := respects a.val b.val first second
  rcases (CCoins.equal_iff _ _).mp same with pruned | equal
  · right
    simpa [CoinsEdit.settled] using pruned
  · left
    simp [CoinsEdit.settled, equal]

theorem lookup_put (cache : CCoinsViewCache) (txid other : Uint256) (entry : CCoinsCacheEntry) :
    (cache.put txid entry).cacheCoins.lookup other =
      if other = txid then some entry else cache.cacheCoins.lookup other :=
  Assoc.lookup_insert cache.cacheCoins txid other entry

theorem fetchCoins_correct (db : CCoinsView) (txid : Uint256) (caches : List CCoinsViewCache) :
    (fetchCoins db txid caches).2 =
        (fetch CleanCoins.isPruned (db.coins txid) (column caches txid)).2 ∧
      ∀ other, column (fetchCoins db txid caches).1 other =
        if other = txid then (fetch CleanCoins.isPruned (db.coins txid) (column caches txid)).1
        else column caches other := by
  induction caches with
  | nil => simp [fetchCoins, column, fetch]
  | cons cache base ih =>
      obtain ⟨found, columns⟩ := ih
      cases entry : cache.cacheCoins.lookup txid with
      | some entry =>
          simp only [fetchCoins, entry, column, List.map_cons, fetch, true_and]
          intro other
          split
          next same => rw [same, entry]
          next => rfl
      | none =>
          cases below : fetchCoins db txid base with
          | mk base' coins =>
              rw [below] at found columns
              simp only [column, List.map_cons, entry, fetch]
              simp only [column] at found columns
              cases coins with
              | none =>
                  simp only [fetchCoins, entry, below, List.map_cons]
                  refine ⟨found, fun other => ?_⟩
                  split
                  next same =>
                    rw [columns, if_pos same, same, entry, ← found]
                    rfl
                  next other_key => rw [columns, if_neg other_key]
              | some coins =>
                  simp only [fetchCoins, entry, below, List.map_cons, lookup_put]
                  refine ⟨found, fun other => ?_⟩
                  split
                  next same =>
                    rw [columns, if_pos same, ← found]
                    rfl
                  next other_key => rw [columns, if_neg other_key]

theorem fetchCoins_simulates (stack : CacheStack) (plain : List PlainCoins) (txid : Uint256)
    (simulates : Simulates stack plain) :
    Simulates { stack with caches := (fetchCoins stack.db txid stack.caches).1 } plain := by
  obtain ⟨_, columns⟩ := fetchCoins_correct stack.db txid stack.caches
  constructor
  · intro other
    have linked := simulates.linked other
    rw [columns]
    split
    next same =>
      subst same
      exact fetch_linked _ _ linked
    next => exact linked
  · intro other
    have shown := simulates.shown other
    simp only [CacheStack.levels] at shown ⊢
    rw [columns]
    split
    next same =>
      subst same
      rw [fetch_levels, shown]
    next => exact shown

theorem entryFor_correct (db : CCoinsView) (cache : CCoinsViewCache)
    (base : List CCoinsViewCache) (txid : Uint256) :
    (entryFor db cache base txid).1 =
        (acquire CleanCoins.isPruned CleanCoins.empty (db.coins txid)
          (cache.cacheCoins.lookup txid) (column base txid)).1 ∧
      ∀ other, column (entryFor db cache base txid).2 other =
        if other = txid then
          (acquire CleanCoins.isPruned CleanCoins.empty (db.coins txid)
            (cache.cacheCoins.lookup txid) (column base txid)).2
        else column base other := by
  unfold entryFor acquire
  cases cache.cacheCoins.lookup txid with
  | some entry =>
      dsimp only
      refine ⟨rfl, fun other => ?_⟩
      by_cases same : other = txid <;> simp [same]
  | none =>
      obtain ⟨found, columns⟩ := fetchCoins_correct db txid base
      cases below : fetchCoins db txid base with
      | mk base' coins =>
          cases fetched : fetch CleanCoins.isPruned (db.coins txid) (column base txid) with
          | mk below' value =>
              rw [below, fetched] at found columns
              dsimp only at found columns
              subst found
              cases coins with
              | none => exact ⟨rfl, columns⟩
              | some coins => exact ⟨rfl, columns⟩

theorem modifyCoins_top (db : CCoinsView) (txid : Uint256) (edit : CoinsEdit)
    (cache : CCoinsViewCache) (base : List CCoinsViewCache) (other : Uint256) :
    column (modifyCoins db txid edit (cache :: base)) other =
      (if other = txid then
        settle CleanCoins.isPruned (entryFor db cache base txid).1
          (edit.settled (entryFor db cache base txid).1.value)
      else cache.cacheCoins.lookup other) :: column (entryFor db cache base txid).2 other := by
  simp only [modifyCoins, settle]
  split
  next gone => simp [column, Assoc.lookup_erase]
  next => simp [column, lookup_put]

theorem modifyCoins_column (db : CCoinsView) (txid : Uint256) (edit : CoinsEdit)
    (caches : List CCoinsViewCache) (other : Uint256) :
    column (modifyCoins db txid edit caches) other =
      if other = txid then
        WriteBack.modify CleanCoins.isPruned CleanCoins.empty edit.settled (db.coins txid)
          (column caches txid)
      else column caches other := by
  cases caches with
  | nil => simp [modifyCoins, column, WriteBack.modify]
  | cons cache base =>
      obtain ⟨entry, columns⟩ := entryFor_correct db cache base txid
      rw [modifyCoins_top, columns]
      by_cases same : other = txid
      · rw [if_pos same, if_pos same, if_pos same, entry]
        rfl
      · rw [if_neg same, if_neg same, if_neg same]
        rfl

theorem modify_same (plain : PlainCoins) (txid : Uint256) (edit : CoinsEdit) :
    plain.modify txid edit txid =
      edited CleanCoins.isPruned CleanCoins.empty edit.settled (plain txid) := by
  simp only [PlainCoins.modify, Function.update_self, edited]
  split
  next pruned => rw [visible_some_blank _ pruned]
  next alive => rw [visible_some _ (by simpa using alive)]

theorem modify_other (plain : PlainCoins) (txid other : Uint256) (edit : CoinsEdit)
    (different : other ≠ txid) : plain.modify txid edit other = plain other := by
  simp [PlainCoins.modify, different]

theorem modify_simulates (stack : CacheStack) (top : PlainCoins) (rest : List PlainCoins)
    (txid : Uint256) (edit : CoinsEdit) (respects : edit.Respects) (nonempty : stack.caches ≠ [])
    (simulates : Simulates stack (top :: rest)) :
    Simulates (stack.modify txid edit) (top.modify txid edit :: rest) := by
  obtain ⟨cache, base, cons⟩ := List.exists_cons_of_ne_nil nonempty
  have shape : column stack.caches txid = cache.cacheCoins.lookup txid :: column base txid := by
    rw [cons]
    rfl
  have linked := simulates.linked txid
  have shown := simulates.shown txid
  rw [CacheStack.levels] at shown
  rw [shape] at linked shown
  obtain ⟨here, below⟩ := List.cons.inj shown
  obtain ⟨kept, levels⟩ := WriteBack.modify_correct CleanCoins.empty edit.settled
    (stack.db.coins txid) _ _ rfl (respects_settled edit respects) linked
  have columns := modifyCoins_column stack.db txid edit stack.caches
  constructor
  · intro other
    rw [CacheStack.modify, columns]
    split
    next same =>
      subst same
      rw [shape]
      exact kept
    next => exact simulates.linked other
  · intro other
    rw [CacheStack.levels, CacheStack.modify, columns, List.map_cons]
    split
    next same =>
      subst same
      rw [shape, levels, modify_same, here, below]
    next different =>
      rw [modify_other top txid other edit different]
      exact simulates.shown other

theorem writeEntry_correct (cacheCoins : CCoinsMap) (txid : Uint256) (entry : CCoinsCacheEntry)
    (written : Option CCoinsCacheEntry)
    (writes : write CleanCoins.isPruned (some entry) (cacheCoins.lookup txid) = some written) :
    ∃ next, writeEntry cacheCoins txid entry = some next ∧
      ∀ other, next.lookup other = if other = txid then written else cacheCoins.lookup other := by
  have inserted (slot : CCoinsCacheEntry) (other : Uint256) :=
    Assoc.lookup_insert cacheCoins txid other slot
  have erased := Assoc.lookup_erase cacheCoins txid
  have unchanged (slot : Option CCoinsCacheEntry) (found : cacheCoins.lookup txid = slot)
      (other : Uint256) :
      cacheCoins.lookup other = if other = txid then slot else cacheCoins.lookup other := by
    split
    next same => rw [same, found]
    next => rfl
  unfold write at writes
  unfold writeEntry
  cases found : cacheCoins.lookup txid with
  | none =>
      simp only [found] at writes ⊢
      split at writes
      next clean =>
        cases writes
        exact ⟨cacheCoins, by rw [if_pos clean], unchanged none found⟩
      next dirty =>
        rw [if_neg dirty]
        split at writes
        next pruned =>
          cases writes
          exact ⟨cacheCoins, by rw [if_pos pruned], unchanged none found⟩
        next alive =>
          rw [if_neg alive]
          split at writes
          next fresh =>
            cases writes
            exact ⟨_, by rw [if_pos fresh], inserted _⟩
          next => cases writes
  | some itUs =>
      simp only [found] at writes ⊢
      split at writes
      next clean =>
        cases writes
        exact ⟨cacheCoins, by rw [if_pos clean], unchanged _ found⟩
      next dirty =>
        rw [if_neg dirty]
        split at writes
        next gone =>
          cases writes
          exact ⟨_, by rw [if_pos gone], erased⟩
        next kept =>
          cases writes
          exact ⟨_, by rw [if_neg kept], inserted _⟩

-- Distinct keys do not disturb each other, so the order of BatchWrite's loop does not matter.
theorem writeEntries_correct (entries : List (Sigma fun _ : Uint256 => CCoinsCacheEntry))
    (distinct : entries.NodupKeys) (cacheCoins : CCoinsMap)
    (writes : ∀ txid, ∃ written,
      write CleanCoins.isPruned (entries.dlookup txid) (cacheCoins.lookup txid) = some written) :
    ∃ next, writeEntries cacheCoins entries = some next ∧
      ∀ txid, write CleanCoins.isPruned (entries.dlookup txid) (cacheCoins.lookup txid) =
        some (next.lookup txid) := by
  induction entries generalizing cacheCoins with
  | nil => exact ⟨cacheCoins, rfl, fun txid => rfl⟩
  | cons item rest ih =>
      obtain ⟨txid, entry⟩ := item
      obtain ⟨absent, distinct⟩ := List.nodupKeys_cons.mp distinct
      obtain ⟨written, here⟩ := writes txid
      rw [List.dlookup_cons_eq] at here
      obtain ⟨mid, wrote, changed⟩ := writeEntry_correct cacheCoins txid entry written here
      have gone : rest.dlookup txid = none := List.dlookup_eq_none.mpr absent
      have others (other : Uint256) (different : other ≠ txid) :
          (⟨txid, entry⟩ :: rest : List (Sigma fun _ : Uint256 => CCoinsCacheEntry)).dlookup other =
            rest.dlookup other :=
        List.dlookup_cons_ne rest ⟨txid, entry⟩ different
      obtain ⟨next, ran, result⟩ := ih distinct mid (by
        intro other
        by_cases same : other = txid
        · subst same
          exact ⟨_, by rw [gone]; rfl⟩
        · rw [changed, if_neg same, ← others other same]
          exact writes other)
      refine ⟨next, by simp [writeEntries, wrote, ran], fun other => ?_⟩
      by_cases same : other = txid
      · subst same
        have after := result other
        rw [gone, changed, if_pos rfl] at after
        rw [List.dlookup_cons_eq, here]
        exact after
      · rw [others other same, ← result other, changed, if_neg same]

theorem dbEntries_correct (entries : List (Sigma fun _ : Uint256 => CCoinsCacheEntry))
    (distinct : entries.NodupKeys) (coins : Uint256 → Option CleanCoins) (txid : Uint256) :
    entries.foldl (fun coins item => dbEntry coins item.1 item.2) coins txid =
      writeBase CleanCoins.isPruned (entries.dlookup txid) (coins txid) := by
  induction entries generalizing coins with
  | nil => rfl
  | cons item rest ih =>
      obtain ⟨key, entry⟩ := item
      obtain ⟨absent, distinct⟩ := List.nodupKeys_cons.mp distinct
      rw [List.foldl_cons, ih distinct]
      by_cases same : txid = key
      · subst same
        rw [List.dlookup_eq_none.mpr absent, List.dlookup_cons_eq]
        simp only [writeBase, dbEntry]
        split <;> simp
      · rw [List.dlookup_cons_ne rest ⟨key, entry⟩ same]
        simp only [dbEntry]
        split
        next => rfl
        next => rw [Function.update_of_ne same]

theorem flushCaches_correct (level : Nat) (db : CCoinsView) (caches : List CCoinsViewCache)
    (flushes : ∀ txid, ∃ result,
      flush CleanCoins.isPruned level (db.coins txid) (column caches txid) = some result) :
    ∃ caches' db', CacheStack.flushCaches db level caches = some (caches', db') ∧
      ∀ txid, flush CleanCoins.isPruned level (db.coins txid) (column caches txid) =
        some (column caches' txid, db'.coins txid) := by
  induction level generalizing caches with
  | zero =>
      rcases caches with _ | ⟨cache, _ | ⟨parent, base⟩⟩
      · exact ⟨[], db, rfl, fun txid => rfl⟩
      · refine ⟨_, _, rfl, fun txid => ?_⟩
        have batch := dbEntries_correct cache.cacheCoins.entries cache.cacheCoins.nodupKeys
          db.coins txid
        simp only [dbBatchWrite, batch]
        rfl
      · obtain ⟨next, wrote, result⟩ := writeEntries_correct cache.cacheCoins.entries
          cache.cacheCoins.nodupKeys parent.cacheCoins (by
            intro txid
            obtain ⟨_, flushed⟩ := flushes txid
            obtain ⟨written, writes, _⟩ := Option.map_eq_some_iff.mp flushed
            exact ⟨written, writes⟩)
        refine ⟨_, db, by rw [CacheStack.flushCaches, batchWrite, wrote]; rfl, fun txid => ?_⟩
        have written := result txid
        change write CleanCoins.isPruned (cache.cacheCoins.lookup txid) _ = _ at written
        simp only [column, List.map_cons, flush, written, Option.map_some, AList.lookup_empty]
  | succ level ih =>
      cases caches with
      | nil => exact ⟨[], db, rfl, fun txid => rfl⟩
      | cons cache base =>
          obtain ⟨caches', db', flushed, result⟩ := ih base (by
            intro txid
            obtain ⟨_, flushed⟩ := flushes txid
            rw [column, List.map_cons, flush] at flushed
            obtain ⟨below, writes, _⟩ := Option.map_eq_some_iff.mp flushed
            exact ⟨below, writes⟩)
          refine ⟨cache :: caches', db', by simp [CacheStack.flushCaches, flushed],
            fun txid => ?_⟩
          have below := result txid
          simp only [column] at below
          simp only [column, List.map_cons, flush, below, Option.map_some]

theorem flush_simulates (stack : CacheStack) (plain : List PlainCoins) (level : Nat)
    (bound : level < stack.caches.length)
    (empty : ∀ cache ∈ stack.caches.take level, cache.cacheCoins = ∅)
    (simulates : Simulates stack plain) :
    ∃ after, stack.flush level = some after ∧
      Simulates after (plain.set (level + 1) (plain.getD level fun _ => none)) := by
  have columnBound (txid : Uint256) : level < (column stack.caches txid).length := by
    simpa [column] using bound
  have columnEmpty (txid : Uint256) :
      ∀ slot ∈ (column stack.caches txid).take level, slot = none := by
    intro slot present
    rw [column, ← List.map_take] at present
    obtain ⟨cache, above, rfl⟩ := List.mem_map.mp present
    rw [empty cache above, AList.lookup_empty]
  have flushed (txid : Uint256) := WriteBack.flush_correct level (stack.db.coins txid)
    (column stack.caches txid) (columnBound txid) (columnEmpty txid) (simulates.linked txid)
  obtain ⟨caches', db', ran, result⟩ := flushCaches_correct level stack.db stack.caches (by
    intro txid
    obtain ⟨column', base', flushes, _⟩ := flushed txid
    exact ⟨_, flushes⟩)
  refine ⟨⟨caches', db'⟩, by simp [CacheStack.flush, ran], ?_, ?_⟩
  · intro txid
    obtain ⟨column', base', flushes, linked, _⟩ := flushed txid
    rw [result txid] at flushes
    cases flushes
    exact linked
  · intro txid
    obtain ⟨column', base', flushes, _, levels⟩ := flushed txid
    rw [result txid] at flushes
    cases flushes
    have shown := simulates.shown txid
    have here := levels_getElem? CleanCoins.isPruned (stack.db.coins txid)
      (column stack.caches txid) level (columnBound txid).le
    rw [CacheStack.levels] at shown
    rw [shown, List.getElem?_map] at here
    obtain ⟨child, found, same⟩ := Option.map_eq_some_iff.mp here
    rw [CacheStack.levels, levels, shown, List.getD_eq_getElem?_getD, found, Option.getD_some,
      List.map_set, same]

theorem step_simulates (stack : CacheStack) (plain : List PlainCoins) (op : CacheOp)
    (simulates : Simulates stack plain) (allowed : CacheOp.Allowed stack op ∧ op.Respects) :
    ∃ next, stack.step op = some next ∧ Simulates next (PlainCoins.step plain op) := by
  have start := simulates.shown 0
  cases plain with
  | nil =>
      obtain ⟨rest, cons⟩ := levels_cons CleanCoins.isPruned (stack.db.coins 0)
        (column stack.caches 0)
      rw [CacheStack.levels, cons] at start
      cases start
  | cons top rest =>
      cases op with
      | getCoins txid => exact ⟨_, rfl, fetchCoins_simulates stack _ txid simulates⟩
      | haveCoins txid => exact ⟨_, rfl, fetchCoins_simulates stack _ txid simulates⟩
      | accessCoins txid => exact ⟨_, rfl, fetchCoins_simulates stack _ txid simulates⟩
      | modifyCoins txid edit =>
          exact ⟨_, rfl, modify_simulates stack top rest txid edit allowed.2 allowed.1 simulates⟩
      | setBestBlock hashBlock =>
          have same (txid : Uint256) :
              column (stack.setBestBlock hashBlock).caches txid = column stack.caches txid := by
            rw [CacheStack.setBestBlock]
            cases stack.caches <;> rfl
          refine ⟨_, rfl, fun txid => ?_, fun txid => ?_⟩
          · rw [same]
            exact simulates.linked txid
          · rw [CacheStack.levels, same]
            exact simulates.shown txid
      | flush level =>
          exact flush_simulates stack (top :: rest) level allowed.1.1 allowed.1.2 simulates
      | push =>
          refine ⟨_, rfl, simulates.linked, fun txid => ?_⟩
          have shown := simulates.shown txid
          obtain ⟨below, cons⟩ := levels_cons CleanCoins.isPruned (stack.db.coins txid)
            (column stack.caches txid)
          rw [CacheStack.levels] at shown
          have head := cons.symm.trans shown
          rw [PlainCoins.step, List.map_cons, ← shown, CacheStack.levels]
          exact congrArg (· :: _) (List.cons.inj head).1
      | drop =>
          obtain ⟨cache, base, cons⟩ := List.exists_cons_of_ne_nil allowed.1
          refine ⟨_, rfl, fun txid => ?_, fun txid => ?_⟩
          · have linked := simulates.linked txid
            rw [cons] at linked ⊢
            simp only [column, List.map_cons] at linked
            cases entry : cache.cacheCoins.lookup txid with
            | none =>
                rw [entry] at linked
                exact linked
            | some slot =>
                rw [entry] at linked
                exact linked.2
          · have shown := simulates.shown txid
            rw [CacheStack.levels, cons] at shown
            rw [CacheStack.levels, cons]
            exact (List.cons.inj shown).2

def CacheStack.below (stack : CacheStack) (level : Nat) : CacheStack :=
  { stack with caches := stack.caches.drop level }

def seen (found : Option CleanCoins) : Option CleanCoins :=
  found.filter fun record => !record.isPruned

structure Observes (stack : CacheStack) (plain : List PlainCoins) : Prop where
  getCoins : ∀ level ≤ stack.caches.length, ∀ txid,
    seen ((stack.below level).getCoins txid).2 = plain.getD level (fun _ => none) txid
  accessCoins : ∀ level ≤ stack.caches.length, ∀ txid,
    seen ((stack.below level).accessCoins txid).2 = plain.getD level (fun _ => none) txid
  haveCoins : ∀ level ≤ stack.caches.length, ∀ txid,
    ((stack.below level).haveCoins txid).2 = (plain.getD level (fun _ => none) txid).isSome

theorem getCoins_shown (stack : CacheStack) (plain : List PlainCoins) (level : Nat)
    (txid : Uint256) (bound : level ≤ stack.caches.length) (simulates : Simulates stack plain) :
    seen ((stack.below level).getCoins txid).2 = plain.getD level (fun _ => none) txid := by
  obtain ⟨found, _⟩ := fetchCoins_correct stack.db txid (stack.caches.drop level)
  have columnDrop : column (stack.caches.drop level) txid =
      (column stack.caches txid).drop level := by
    simp [column, List.map_drop]
  have here := levels_getElem? CleanCoins.isPruned (stack.db.coins txid)
    (column stack.caches txid) level (by simpa [column] using bound)
  have shown := simulates.shown txid
  rw [CacheStack.levels] at shown
  rw [shown, List.getElem?_map] at here
  obtain ⟨map, present, same⟩ := Option.map_eq_some_iff.mp here
  rw [List.getD_eq_getElem?_getD, present, Option.getD_some, same, contents, ← columnDrop]
  rw [← fetch_found CleanCoins.isPruned, ← found]
  rfl

theorem haveCoins_seen (stack : CacheStack) (txid : Uint256) :
    (stack.haveCoins txid).2 = (seen (stack.getCoins txid).2).isSome := by
  simp only [CacheStack.haveCoins, CacheStack.getCoins, seen]
  cases (fetchCoins stack.db txid stack.caches).2 with
  | none => rfl
  | some coins =>
      rw [Option.any_some, ← CleanCoins.isPruned_eq_isEmpty]
      cases pruned : coins.isPruned <;> simp [Option.filter, pruned]

theorem simulates_observes (stack : CacheStack) (plain : List PlainCoins)
    (simulates : Simulates stack plain) : Observes stack plain := by
  constructor
  · intro level bound txid
    exact getCoins_shown stack plain level txid bound simulates
  · intro level bound txid
    exact getCoins_shown stack plain level txid bound simulates
  · intro level bound txid
    rw [haveCoins_seen, getCoins_shown stack plain level txid bound simulates]

theorem start_simulates (db : CCoinsView) (depth : Nat) :
    Simulates (CacheStack.start db depth)
      (List.replicate (depth + 1) (PlainCoins.of db.coins)) := by
  have empty (txid : Uint256) : column (CacheStack.start db depth).caches txid =
      List.replicate depth none := by
    simp [column, CacheStack.start, CCoinsViewCache.empty]
  constructor
  · intro txid
    rw [empty]
    exact empty_linked CleanCoins.isPruned (db.coins txid) depth
  · intro txid
    rw [CacheStack.levels, empty, List.map_replicate]
    exact empty_levels CleanCoins.isPruned (db.coins txid) depth

-- No run of permitted operations fails an assertion or shows anything but the plain maps, where no
-- edit reads what is left in a pruned record.
theorem cacheStack_transparent (db : CCoinsView) (depth : Nat) (ops : List CacheOp)
    (respects : ∀ op ∈ ops, op.Respects)
    (allowed : Machine.Along CacheOp.Allowed CacheStack.step (CacheStack.start db depth) ops) :
    ∃ final, Machine.run CacheStack.step (CacheStack.start db depth) ops = some final ∧
      Observes final
        (ops.foldl PlainCoins.step (List.replicate (depth + 1) (PlainCoins.of db.coins))) ∧
      ∀ level, CacheOp.Allowed final (.flush level) →
        ∃ after, final.flush level = some after ∧
          ∀ txid, seen ((after.below (level + 1)).getCoins txid).2 =
            seen ((final.below level).getCoins txid).2 := by
  have both := Machine.along_mono _ (fun stack op => CacheOp.Allowed stack op ∧ op.Respects) _ _ _
    (fun _ op member allowed => ⟨allowed, respects op member⟩) allowed
  obtain ⟨final, ran, simulates⟩ := Machine.run_refines CacheStack.step PlainCoins.step
    _ Simulates step_simulates _ _ ops (start_simulates db depth) both
  refine ⟨final, ran, simulates_observes final _ simulates, ?_⟩
  intro level flushable
  obtain ⟨after, flushed, later⟩ :=
    flush_simulates final _ level flushable.1 flushable.2 simulates
  refine ⟨after, flushed, fun txid => ?_⟩
  have length := simulates_length final _ simulates
  have lengthAfter := simulates_length after _ later
  rw [List.length_set, length] at lengthAfter
  have bound := flushable.1
  rw [getCoins_shown after _ (level + 1) txid (by omega) later,
    getCoins_shown final _ level txid (by omega) simulates, List.getD_eq_getElem?_getD,
    List.getElem?_set_self (by omega), Option.getD_some]

def createdTx : CTransaction where
  nVersion := 1
  vin := []
  vout := [⟨COIN, [0x51]⟩]
  nLockTime := 0

def createdOps : List CacheOp :=
  [.modifyCoins 7 (.create createdTx 1), .haveCoins 7, .flush 0, .modifyCoins 7 (.spend ⟨7, 0⟩),
    .flush 0, .modifyCoins 7 (.create createdTx 2), .flush 0, .flush 1]

theorem cacheStack_transparent_created :
    ∃ final, Machine.run CacheStack.step (CacheStack.start (CCoinsView.empty 0) 2) createdOps =
        some final ∧
      (final.haveCoins 7).2 = true := by
  have respects : ∀ op ∈ createdOps, op.Respects := by
    simp [createdOps, CacheOp.Respects, CoinsEdit.create_respects, CoinsEdit.spend_respects]
  obtain ⟨final, ran, observes, _⟩ :=
    cacheStack_transparent (CCoinsView.empty 0) 2 createdOps respects (by decide +kernel)
  exact ⟨final, ran, observes.haveCoins 0 (Nat.zero_le _) 7⟩

def heightView : CCoinsView where
  coins txid := if txid = 7 then some (CleanCoins.of (CCoins.fromTx createdTx 5)) else none
  hashBlock := 0

-- DisconnectBlock puts the output back, with undo data that has no height.
def putBack : CoinsEdit :=
  ⟨fun coins => (coins.restoreInput 0 ⟨⟨COIN, [0x51]⟩, false, false, 0, 0⟩).1⟩

def putBackOps (between : List CacheOp) : List CacheOp :=
  .modifyCoins 7 (.spend ⟨7, 0⟩) :: between ++ [.modifyCoins 7 putBack]

def heightShown (stack : CacheStack) : Option Nat :=
  (stack.getCoins 7).2.map fun coins => coins.val.nHeight

/-- The height that comes back is the one the pruned record still had, unless a Flush has dropped
it. -/
theorem cacheStack_pruned_read :
    Machine.Along CacheOp.Allowed CacheStack.step (CacheStack.start heightView 1) (putBackOps []) ∧
      (∃ kept, Machine.run CacheStack.step (CacheStack.start heightView 1) (putBackOps []) =
          some kept ∧ heightShown kept = some 5 ∧
        ¬ Observes kept ((putBackOps []).foldl PlainCoins.step
          (List.replicate 2 (PlainCoins.of heightView.coins)))) ∧
      ∃ flushed, Machine.run CacheStack.step (CacheStack.start heightView 1)
        (putBackOps [.flush 0]) = some flushed ∧ heightShown flushed = some 0 := by
  have shown : (Machine.run CacheStack.step (CacheStack.start heightView 1) (putBackOps [])).bind
      heightShown = some 5 := by
    decide +kernel
  have dropped : (Machine.run CacheStack.step (CacheStack.start heightView 1)
      (putBackOps [.flush 0])).bind heightShown = some 0 := by
    decide +kernel
  have plain : (((putBackOps []).foldl PlainCoins.step
      (List.replicate 2 (PlainCoins.of heightView.coins))).getD 0 (fun _ => none) 7).map
        (fun coins => coins.val.nHeight) = some 0 := by
    decide +kernel
  obtain ⟨kept, ran, height⟩ := Option.bind_eq_some_iff.mp shown
  refine ⟨by decide +kernel, ⟨kept, ran, height, fun observes => ?_⟩,
    Option.bind_eq_some_iff.mp dropped⟩
  have same := observes.getCoins 0 (Nat.zero_le _) 7
  rw [← same] at plain
  obtain ⟨coins, found, zero⟩ := Option.map_eq_some_iff.mp plain
  have here : (kept.getCoins 7).2 = some coins := (Option.filter_eq_some_iff.mp found).1
  rw [heightShown, here, Option.map_some, zero] at height
  cases height

end CryptoYen
