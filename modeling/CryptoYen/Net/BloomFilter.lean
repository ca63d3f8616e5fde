import CryptoYen.Library.BitArray
import CryptoYen.Library.Cells
import CryptoYen.Library.Machine

set_option autoImplicit false

namespace CryptoYen

section murmur

def rotl32 (x r : UInt32) : UInt32 := (x <<< r) ||| (x >>> (32 - r))

def murmurBlock (k1 : UInt32) : UInt32 := rotl32 (k1 * 0xcc9e2d51) 15 * 0x1b873593

def murmurBody : UInt32 → List UInt8 → UInt32 × List UInt8
  | h1, a :: b :: c :: d :: rest =>
      let block := a.toUInt32 ||| b.toUInt32 <<< 8 ||| c.toUInt32 <<< 16 ||| d.toUInt32 <<< 24
      murmurBody (rotl32 (h1 ^^^ murmurBlock block) 13 * 5 + 0xe6546b64) rest
  | h1, tail => (h1, tail)

def murmurTail (h1 : UInt32) : List UInt8 → UInt32
  | [] => h1
  | tail =>
      h1 ^^^ murmurBlock
        (tail.zipIdx.foldl (fun k1 byte => k1 ^^^ byte.1.toUInt32 <<< UInt32.ofNat (8 * byte.2)) 0)

def murmurHash3 (nHashSeed : UInt32) (vDataToHash : List UInt8) : UInt32 :=
  let (h1, tail) := murmurBody nHashSeed vDataToHash
  let h1 := murmurTail h1 tail
  -- finalization
  let h1 := h1 ^^^ UInt32.ofNat vDataToHash.length
  let h1 := (h1 ^^^ h1 >>> 16) * 0x85ebca6b
  let h1 := (h1 ^^^ h1 >>> 13) * 0xc2b2ae35
  h1 ^^^ h1 >>> 16

end murmur

def MAX_BLOOM_FILTER_SIZE : Nat := 36000

def MAX_HASH_FUNCS : Nat := 50

structure CBloomFilter where
  vData : List UInt8
  isFull : Bool
  isEmpty : Bool
  nHashFuncs : Nat
  nTweak : UInt32
  deriving DecidableEq, Repr

namespace CBloomFilter

open BitArray

variable (filter : CBloomFilter)

/-- none is a remainder by zero. -/
def hash (nHashNum : Nat) (vDataToHash : List UInt8) : Option Nat :=
  if filter.vData.length * 8 = 0 then none
  else
    some ((murmurHash3 (UInt32.ofNat nHashNum * 0xFBA4C795 + filter.nTweak) vDataToHash).toNat %
      (filter.vData.length * 8))

def insertBit (vKey : List UInt8) (i : Nat) (filter : CBloomFilter) : Option CBloomFilter :=
  (filter.hash i vKey).bind fun nIndex =>
    (setBit filter.vData nIndex).map fun vData => { filter with vData }

def insert (vKey : List UInt8) : Option CBloomFilter :=
  if filter.isFull then some filter
  else
    (Cells.loop (insertBit vKey) 0 filter.nHashFuncs filter).map fun filter =>
      { filter with isEmpty := false }

def containsFrom (vKey : List UInt8) : Nat → Nat → Option Bool
  | _, 0 => some true
  | i, count + 1 =>
      (filter.hash i vKey).bind fun nIndex =>
        (testBit filter.vData nIndex).bind fun bit =>
          if bit then containsFrom vKey (i + 1) count else some false

def contains (vKey : List UInt8) : Option Bool :=
  if filter.isFull then some true
  else if filter.isEmpty then some false
  else filter.containsFrom vKey 0 filter.nHashFuncs

def clear : CBloomFilter :=
  { filter with vData := filter.vData.map fun _ => 0, isFull := false, isEmpty := true }

def isWithinSizeConstraints : Bool :=
  decide (filter.vData.length ≤ MAX_BLOOM_FILTER_SIZE) && decide (filter.nHashFuncs ≤ MAX_HASH_FUNCS)

def matchesAll : Bool := filter.vData.all (· == 0xff)

def isCompatible (other : CBloomFilter) : Bool :=
  other.vData.length == filter.vData.length && other.nHashFuncs == filter.nHashFuncs &&
    other.nTweak == filter.nTweak

def writeByte (vData : List UInt8) (i : Nat) (byte : UInt8) : Option (List UInt8) :=
  if i < vData.length then some (vData.set i byte) else none

def merge (other : CBloomFilter) : Option (CBloomFilter × Bool) :=
  if !filter.matchesAll && !other.matchesAll then
    if !filter.isCompatible other then some (filter, false)
    else (orBytes filter.vData other.vData).map fun vData => ({ filter with vData }, true)
  else
    -- TODO: Check this.
    (writeByte [] 0 0xff).map fun vData => ({ filter with vData }, true)

def updateEmptyFull : CBloomFilter :=
  { filter with
    isFull := filter.vData.all (· == 0xff)
    isEmpty := filter.vData.all (· == 0) }

section bits

variable {filter : CBloomFilter}

theorem hash_inside (nonempty : filter.vData ≠ []) (i : Nat) (vKey : List UInt8) :
    ∃ n, filter.hash i vKey = some n ∧ n < 8 * filter.vData.length := by
  have positive := List.length_pos_of_ne_nil nonempty
  refine ⟨_, if_neg (by omega), ?_⟩
  rw [Nat.mul_comm 8]
  exact Nat.mod_lt _ (by omega)

theorem hash_congr {other : CBloomFilter} (width : other.vData.length = filter.vData.length)
    (tweak : other.nTweak = filter.nTweak) : other.hash = filter.hash := by
  funext i vKey
  rw [hash, hash, width, tweak]

theorem hash_none (empty : filter.vData = []) (i : Nat) (vKey : List UInt8) :
    filter.hash i vKey = none := by rw [hash, empty]; rfl

variable (filter) in
def HasBits (vKey : List UInt8) : Prop :=
  ∀ i < filter.nHashFuncs, ∃ n, filter.hash i vKey = some n ∧ n ∈ bits filter.vData

theorem HasBits.mono {other : CBloomFilter} {vKey : List UInt8} (has : filter.HasBits vKey)
    (width : other.vData.length = filter.vData.length) (funcs : other.nHashFuncs = filter.nHashFuncs)
    (tweak : other.nTweak = filter.nTweak) (more : bits filter.vData ⊆ bits other.vData) :
    other.HasBits vKey := by
  intro i inside
  rw [funcs] at inside
  obtain ⟨n, found, set⟩ := has i inside
  exact ⟨n, by rw [hash_congr width tweak, found], more set⟩

theorem hasBits_full (nonempty : filter.vData ≠ []) (full : filter.matchesAll = true)
    (vKey : List UInt8) : filter.HasBits vKey := by
  intro i _
  obtain ⟨n, found, inside⟩ := hash_inside nonempty i vKey
  refine ⟨n, found, mem_bits_full filter.vData (fun byte mem => ?_) n inside⟩
  exact eq_of_beq (List.all_eq_true.mp full byte mem)

theorem insertBit_loop (vKey : List UInt8) (nonempty : filter.vData ≠ []) (count : Nat) :
    ∃ next, Cells.loop (insertBit vKey) 0 count filter = some next ∧
      next = { filter with vData := next.vData } ∧ next.vData.length = filter.vData.length ∧
      bits filter.vData ⊆ bits next.vData ∧
      ∀ i < count, ∃ n, filter.hash i vKey = some n ∧ n ∈ bits next.vData := by
  have ended := Cells.loop_invariant (insertBit vKey)
    (fun i (next : CBloomFilter) =>
      next = { filter with vData := next.vData } ∧ next.vData.length = filter.vData.length ∧
      bits filter.vData ⊆ bits next.vData ∧
      ∀ j < i, ∃ n, filter.hash j vKey = some n ∧ n ∈ bits next.vData) 0 count (by
    intro i now _ _ kept
    obtain ⟨shape, width, more, done⟩ := kept
    obtain ⟨n, found, inside⟩ := hash_inside nonempty i vKey
    obtain ⟨vData, set, same, added⟩ := setBit_bits now.vData n (by rw [width]; exact inside)
    have hashed : now.hash i vKey = some n := by
      rw [hash_congr width (by rw [shape]), found]
    refine ⟨{ now with vData }, ?_, ?_, ?_, ?_, ?_⟩
    · rw [insertBit, hashed, Option.bind_some, set]
      rfl
    · rw [shape]
    · exact same.trans width
    · rw [added]
      exact more.trans (Set.subset_insert n _)
    · intro j below
      rw [added]
      rcases Nat.lt_succ_iff_lt_or_eq.mp below with earlier | rfl
      · obtain ⟨m, hashed, mem⟩ := done j earlier
        exact ⟨m, hashed, Set.mem_insert_of_mem n mem⟩
      · exact ⟨n, found, Set.mem_insert n _⟩)
    filter ⟨rfl, rfl, subset_rfl, fun j below => absurd below (Nat.not_lt_zero j)⟩
  rwa [Nat.zero_add] at ended

theorem insertBit_isFull (vKey : List UInt8) (i count : Nat) {next : CBloomFilter}
    (ran : Cells.loop (insertBit vKey) i count filter = some next) : next.isFull = filter.isFull := by
  induction count generalizing i filter with
  | zero =>
      cases ran
      rfl
  | succ count ih =>
      obtain ⟨mid, taken, later⟩ := Option.bind_eq_some_iff.mp ran
      obtain ⟨nIndex, _, written⟩ := Option.bind_eq_some_iff.mp taken
      obtain ⟨vData, _, same⟩ := Option.map_eq_some_iff.mp written
      rw [ih (i + 1) later, ← same]

theorem containsFrom_total (nonempty : filter.vData ≠ []) (vKey : List UInt8) (i count : Nat) :
    ∃ found, filter.containsFrom vKey i count = some found := by
  induction count generalizing i with
  | zero => exact ⟨true, rfl⟩
  | succ count ih =>
      obtain ⟨n, hashed, inside⟩ := hash_inside nonempty i vKey
      obtain ⟨bit, tested, _⟩ := testBit_isSome filter.vData n inside
      rw [containsFrom, hashed, Option.bind_some, tested, Option.bind_some]
      cases bit with
      | false => exact ⟨false, rfl⟩
      | true => exact ih (i + 1)

theorem containsFrom_bits (vKey : List UInt8) (i count : Nat)
    (has : ∀ j, i ≤ j → j < i + count →
      ∃ n, filter.hash j vKey = some n ∧ n ∈ bits filter.vData) :
    filter.containsFrom vKey i count = some true := by
  induction count generalizing i with
  | zero => rfl
  | succ count ih =>
      obtain ⟨n, hashed, set⟩ := has i (Nat.le_refl i) (by omega)
      have tested : testBit filter.vData n = some true := set
      rw [containsFrom, hashed, Option.bind_some, tested, Option.bind_some, if_pos rfl]
      exact ih (i + 1) fun j low high => has j (by omega) (by omega)

end bits

end CBloomFilter

/-- A filter with the keys inserted since its last clear, into it or into a filter that was merged
into it since. -/
structure TrackedFilter where
  filter : CBloomFilter
  keys : List (List UInt8)
  deriving DecidableEq, Repr

namespace TrackedFilter

inductive Event (I : Type)
  | insert (i : I) (vKey : List UInt8)
  | merge (i j : I)
  | clear (i : I)
  | updateEmptyFull (i : I)
  deriving DecidableEq, Repr

def insert (t : TrackedFilter) (vKey : List UInt8) : Option TrackedFilter :=
  (t.filter.insert vKey).map fun filter => ⟨filter, vKey :: t.keys⟩

-- A Merge that returns false hands over no keys.
def merge (t other : TrackedFilter) : Option TrackedFilter :=
  (t.filter.merge other.filter).map fun result =>
    ⟨result.1, if result.2 then t.keys ++ other.keys else t.keys⟩

def clear (t : TrackedFilter) : TrackedFilter := ⟨t.filter.clear, []⟩

def updateEmptyFull (t : TrackedFilter) : TrackedFilter := { t with filter := t.filter.updateEmptyFull }

section runs

variable {I : Type} [DecidableEq I]

def step (s : I → TrackedFilter) : Event I → Option (I → TrackedFilter)
  | .insert i vKey => ((s i).insert vKey).map (Function.update s i)
  | .merge i j => ((s i).merge (s j)).map (Function.update s i)
  | .clear i => some (Function.update s i (s i).clear)
  | .updateEmptyFull i => some (Function.update s i (s i).updateEmptyFull)

end runs

def Sound (t : TrackedFilter) : Prop :=
  (∀ vKey, ∃ found, t.filter.contains vKey = some found) ∧
    ∀ vKey ∈ t.keys, t.filter.contains vKey = some true

def Divides (filter : CBloomFilter) : Prop :=
  filter.isFull = true ∨ filter.isEmpty = true ∨ filter.vData ≠ [] ∨ filter.nHashFuncs = 0

structure Kept (t : TrackedFilter) : Prop where
  divides : Divides t.filter
  stored : ∀ vKey ∈ t.keys, t.filter.vData = [] ∨ t.filter.HasBits vKey
  shown : t.keys ≠ [] → t.filter.isFull = true ∨ t.filter.isEmpty = false

-- isFull was not left behind by the array.
def Truthful (filter : CBloomFilter) : Prop := filter.isFull = true → filter.matchesAll = true

/-- When an operation neither reads what is not there nor loses a key. -/
def Allowed {I : Type} (s : I → TrackedFilter) : Event I → Prop
  | .insert i _ =>
      Truthful (s i).filter ∧
        ((s i).filter.isFull = true ∨ (s i).filter.vData ≠ [] ∨ (s i).filter.nHashFuncs = 0)
  | .merge i j =>
      (s i).filter.matchesAll = false ∧ (s j).filter.matchesAll = false ∧
        ((s i).filter.isCompatible (s j).filter = true → (s i).filter.isEmpty = true →
          (s i).filter.isFull = true ∨ (s j).keys = [])
  | .clear _ => True
  | .updateEmptyFull i =>
      (s i).keys = [] ∨ (s i).filter.nHashFuncs ≠ 0 ∨ (s i).filter.vData = [] ∨
        ∃ byte ∈ (s i).filter.vData, byte ≠ 0

section kept

open CBloomFilter BitArray

variable {t other : TrackedFilter}

theorem Kept.sound (kept : t.Kept) : t.Sound := by
  constructor
  · intro vKey
    rw [contains]
    split_ifs with full empty
    · exact ⟨true, rfl⟩
    · exact ⟨false, rfl⟩
    · rcases kept.divides with isFull | isEmpty | nonempty | none
      · exact absurd isFull full
      · exact absurd isEmpty empty
      · exact containsFrom_total nonempty vKey 0 _
      · rw [none]
        exact ⟨true, rfl⟩
  · intro vKey mem
    have shown := kept.shown (List.ne_nil_of_mem mem)
    rw [contains]
    split_ifs with full empty
    · rfl
    · rcases shown with isFull | notEmpty
      · exact absurd isFull full
      · rw [empty] at notEmpty
        cases notEmpty
    · apply containsFrom_bits
      intro j _ inside
      rw [Nat.zero_add] at inside
      rcases kept.stored vKey mem with none | has
      · rcases kept.divides with isFull | isEmpty | nonempty | zero
        · exact absurd isFull full
        · exact absurd isEmpty empty
        · exact absurd none nonempty
        · omega
      · exact has j inside

theorem clear_kept (t : TrackedFilter) : t.clear.Kept where
  divides := .inr (.inl rfl)
  stored _ mem := absurd mem List.not_mem_nil
  shown some_key := absurd rfl some_key

theorem Kept.insert (kept : t.Kept) (vKey : List UInt8) (truthful : Truthful t.filter)
    (room : t.filter.isFull = true ∨ t.filter.vData ≠ [] ∨ t.filter.nHashFuncs = 0) :
    ∃ next, t.insert vKey = some next ∧ next.Kept := by
  rw [TrackedFilter.insert, CBloomFilter.insert]
  by_cases full : t.filter.isFull = true
  · rw [if_pos full]
    refine ⟨_, rfl, kept.divides, ?_, fun _ => .inl full⟩
    rintro key (_ | ⟨_, mem⟩)
    · by_cases none : t.filter.vData = []
      · exact .inl none
      · exact .inr (hasBits_full none (truthful full) vKey)
    · exact kept.stored key mem
  · rw [if_neg full]
    by_cases nonempty : t.filter.vData = []
    · have zero : t.filter.nHashFuncs = 0 := by
        rcases room with isFull | some_byte | zero
        · exact absurd isFull full
        · exact absurd nonempty some_byte
        · exact zero
      rw [zero]
      exact ⟨_, rfl, .inr (.inr (.inr zero)), fun key _ => .inl nonempty, fun _ => .inr rfl⟩
    · obtain ⟨next, ran, shape, width, more, has⟩ :=
        insertBit_loop vKey nonempty t.filter.nHashFuncs
      have tweak : next.nTweak = t.filter.nTweak := by rw [shape]
      have funcs : next.nHashFuncs = t.filter.nHashFuncs := by rw [shape]
      rw [ran]
      refine ⟨_, rfl, .inr (.inr (.inl ?_)), ?_, fun _ => .inr rfl⟩
      · rw [← List.length_pos_iff, width, List.length_pos_iff]
        exact nonempty
      · rintro key (_ | ⟨_, mem⟩)
        · refine .inr fun i inside => ?_
          rw [funcs] at inside
          obtain ⟨n, hashed, set⟩ := has i inside
          have moved : next.hash i vKey = some n := by rw [hash_congr width tweak, hashed]
          exact ⟨n, moved, set⟩
        · exact (kept.stored key mem).elim (fun none => absurd none nonempty) fun stored =>
            .inr (stored.mono width funcs tweak more)

theorem matchesAll_nil {filter : CBloomFilter} (notAll : filter.matchesAll = false) :
    filter.vData ≠ [] := by
  intro none
  rw [matchesAll, none] at notAll
  cases notAll

theorem Kept.merge (kept : t.Kept) (keptOther : other.Kept)
    (here : t.filter.matchesAll = false) (there : other.filter.matchesAll = false)
    (shown : t.filter.isCompatible other.filter = true → t.filter.isEmpty = true →
      t.filter.isFull = true ∨ other.keys = []) :
    ∃ next, t.merge other = some next ∧ next.Kept := by
  have nonempty := matchesAll_nil here
  rw [TrackedFilter.merge, CBloomFilter.merge, here, there]
  cases compatible : t.filter.isCompatible other.filter with
  | false => exact ⟨t, rfl, kept⟩
  | true =>
      have hands := shown compatible
      rw [isCompatible, Bool.and_eq_true, Bool.and_eq_true, beq_iff_eq, beq_iff_eq, beq_iff_eq]
        at compatible
      obtain ⟨⟨width, funcs⟩, tweak⟩ := compatible
      obtain ⟨vData, merged, same, union⟩ := orBytes_bits t.filter.vData other.filter.vData width.symm
      simp only [Bool.not_false, Bool.and_self, ↓reduceIte, Bool.not_true, Bool.false_eq_true, merged]
      refine ⟨_, rfl, .inr (.inr (.inl ?_)), ?_, ?_⟩
      · rw [← List.length_pos_iff, same, List.length_pos_iff]
        exact nonempty
      · intro key mem
        rcases List.mem_append.mp mem with mine | theirs
        · refine (kept.stored key mine).elim (fun none => absurd none nonempty) fun has => .inr ?_
          refine has.mono same rfl rfl ?_
          rw [union]
          exact Set.subset_union_left
        · refine (keptOther.stored key theirs).elim
            (fun none => absurd none (matchesAll_nil there)) fun has => .inr ?_
          refine has.mono (same.trans width.symm) funcs.symm tweak.symm ?_
          rw [union]
          exact Set.subset_union_right
      · intro some_key
        by_cases hidden : t.filter.isEmpty = true
        · rcases hands hidden with isFull | nothing
          · exact .inl isFull
          · refine kept.shown fun none => some_key ?_
            dsimp only
            rw [none, nothing]
            rfl
        · exact .inr (Bool.eq_false_of_not_eq_true hidden)

theorem Kept.updateEmptyFull (kept : t.Kept)
    (visible : t.keys = [] ∨ t.filter.nHashFuncs ≠ 0 ∨ t.filter.vData = [] ∨
      ∃ byte ∈ t.filter.vData, byte ≠ 0) : t.updateEmptyFull.Kept := by
  refine ⟨?_, kept.stored, fun some_key => ?_⟩
  · by_cases none : t.filter.vData = []
    · refine .inl ?_
      change t.filter.vData.all (· == 0xff) = true
      rw [none]
      rfl
    · exact .inr (.inr (.inl none))
  · change t.filter.vData.all (· == 0xff) = true ∨ t.filter.vData.all (· == 0) = false
    by_cases none : t.filter.vData = []
    · rw [none]
      exact .inl rfl
    · refine .inr (Bool.eq_false_iff.mpr fun all => ?_)
      have zero : ∀ byte ∈ t.filter.vData, byte = 0 :=
        fun byte mem => eq_of_beq (List.all_eq_true.mp all byte mem)
      rcases visible with noKey | funcs | empty | ⟨byte, mem, nonzero⟩
      · exact some_key noKey
      · obtain ⟨key, mem⟩ := List.exists_mem_of_ne_nil t.keys some_key
        have has := (kept.stored key mem).resolve_left none
        obtain ⟨n, _, set⟩ := has 0 (Nat.pos_of_ne_zero funcs)
        exact not_mem_bits_zero t.filter.vData zero n set
      · exact none empty
      · exact nonzero (zero byte mem)

theorem Truthful.insert (truthful : Truthful t.filter) (vKey : List UInt8) {next : TrackedFilter}
    (inserted : t.insert vKey = some next) : Truthful next.filter := by
  rw [TrackedFilter.insert, CBloomFilter.insert] at inserted
  split_ifs at inserted with full
  · cases inserted
    exact truthful
  · obtain ⟨filter, ran, same⟩ := Option.map_eq_some_iff.mp inserted
    obtain ⟨looped, looping, ended⟩ := Option.map_eq_some_iff.mp ran
    subst same ended
    intro nowFull
    have kept := insertBit_isFull vKey 0 _ looping
    exact absurd (kept.symm.trans nowFull) full

theorem Truthful.merge (truthful : Truthful t.filter) {next : TrackedFilter}
    (merged : t.merge other = some next) : Truthful next.filter := by
  rw [TrackedFilter.merge, CBloomFilter.merge] at merged
  split_ifs at merged with here apart
  · cases merged
    exact truthful
  · rw [Bool.and_eq_true, Bool.not_eq_true'] at here
    obtain ⟨result, ran, same⟩ := Option.map_eq_some_iff.mp merged
    obtain ⟨vData, _, ended⟩ := Option.map_eq_some_iff.mp ran
    subst same ended
    intro nowFull
    rw [truthful nowFull] at here
    cases here.1
  · cases merged

theorem divides_of_total (vKey : List UInt8)
    (total : ∃ found, t.filter.contains vKey = some found) : Divides t.filter := by
  by_contra apart
  rw [Divides, not_or, not_or, not_or, not_not] at apart
  obtain ⟨full, empty, none, funcs⟩ := apart
  obtain ⟨found, looked⟩ := total
  obtain ⟨count, same⟩ := Nat.exists_eq_succ_of_ne_zero funcs
  rw [contains, if_neg full, if_neg empty, same, containsFrom, hash_none none] at looked
  cases looked

theorem insert_needs (vKey : List UInt8) {next : TrackedFilter}
    (inserted : t.insert vKey = some next) :
    t.filter.isFull = true ∨ t.filter.vData ≠ [] ∨ t.filter.nHashFuncs = 0 := by
  by_contra apart
  rw [not_or, not_or, not_not] at apart
  obtain ⟨full, none, funcs⟩ := apart
  obtain ⟨count, same⟩ := Nat.exists_eq_succ_of_ne_zero funcs
  rw [TrackedFilter.insert, CBloomFilter.insert, if_neg full, same, Cells.loop, insertBit,
    hash_none none] at inserted
  cases inserted

theorem merge_needs {next : TrackedFilter} (merged : t.merge other = some next)
    (sound : next.Sound) :
    t.filter.matchesAll = false ∧ other.filter.matchesAll = false ∧
      (t.filter.isCompatible other.filter = true → t.filter.isEmpty = true →
        t.filter.isFull = true ∨ other.keys = []) := by
  rw [TrackedFilter.merge, CBloomFilter.merge] at merged
  split_ifs at merged with here apart
  · rw [Bool.and_eq_true, Bool.not_eq_true', Bool.not_eq_true'] at here
    rw [Bool.not_eq_true'] at apart
    refine ⟨here.1, here.2, fun compatible => ?_⟩
    rw [apart] at compatible
    cases compatible
  · rw [Bool.and_eq_true, Bool.not_eq_true', Bool.not_eq_true'] at here
    refine ⟨here.1, here.2, fun _ hidden => ?_⟩
    obtain ⟨result, ran, same⟩ := Option.map_eq_some_iff.mp merged
    obtain ⟨vData, _, ended⟩ := Option.map_eq_some_iff.mp ran
    subst same ended
    by_contra lost
    rw [not_or] at lost
    obtain ⟨key, mem⟩ := List.exists_mem_of_ne_nil other.keys lost.2
    have found := sound.2 key (List.mem_append_right t.keys mem)
    rw [contains, if_neg lost.1, if_pos hidden] at found
    cases found
  · cases merged

theorem updateEmptyFull_needs (sound : t.updateEmptyFull.Sound) :
    t.keys = [] ∨ t.filter.nHashFuncs ≠ 0 ∨ t.filter.vData = [] ∨
      ∃ byte ∈ t.filter.vData, byte ≠ 0 := by
  by_contra lost
  push Not at lost
  obtain ⟨some_key, _, some_byte, zero⟩ := lost
  obtain ⟨key, mem⟩ := List.exists_mem_of_ne_nil t.keys some_key
  obtain ⟨byte, first⟩ := List.exists_mem_of_ne_nil t.filter.vData some_byte
  have found := sound.2 key mem
  have full : t.updateEmptyFull.filter.isFull = false := by
    refine List.all_eq_false.mpr ⟨byte, first, ?_⟩
    rw [zero byte first]
    decide
  have empty : t.updateEmptyFull.filter.isEmpty = true :=
    List.all_eq_true.mpr fun byte mem => beq_iff_eq.mpr (zero byte mem)
  rw [contains, full, empty] at found
  cases found

end kept

section history

variable {I : Type} [DecidableEq I] {s next : I → TrackedFilter} {event : Event I}

theorem update_all {P : TrackedFilter → Prop} (held : ∀ i, P (s i)) (i : I) {t : TrackedFilter}
    (here : P t) : ∀ j, P (Function.update s i t j) :=
  (Function.forall_update_iff s fun _ => P).mpr ⟨here, fun j _ => held j⟩

theorem step_kept (kept : ∀ i, (s i).Kept) (event : Event I) (allowed : Allowed s event) :
    ∃ next, step s event = some next ∧ ∀ i, (next i).Kept := by
  cases event with
  | insert i vKey =>
      obtain ⟨t, inserted, here⟩ := (kept i).insert vKey allowed.1 allowed.2
      exact ⟨_, by rw [step, inserted]; rfl, update_all kept i here⟩
  | merge i j =>
      obtain ⟨t, merged, here⟩ := (kept i).merge (kept j) allowed.1 allowed.2.1 allowed.2.2
      exact ⟨_, by rw [step, merged]; rfl, update_all kept i here⟩
  | clear i => exact ⟨_, rfl, update_all kept i (clear_kept (s i))⟩
  | updateEmptyFull i => exact ⟨_, rfl, update_all kept i ((kept i).updateEmptyFull allowed)⟩

theorem step_truthful (truthful : ∀ i, Truthful (s i).filter) (stepped : step s event = some next) :
    ∀ i, Truthful (next i).filter := by
  cases event with
  | insert i vKey =>
      obtain ⟨t, inserted, same⟩ := Option.map_eq_some_iff.mp stepped
      subst same
      exact update_all (P := fun t => Truthful t.filter) truthful i ((truthful i).insert vKey inserted)
  | merge i j =>
      obtain ⟨t, merged, same⟩ := Option.map_eq_some_iff.mp stepped
      subst same
      exact update_all (P := fun t => Truthful t.filter) truthful i ((truthful i).merge merged)
  | clear i =>
      cases stepped
      refine update_all (P := fun t => Truthful t.filter) truthful i ?_
      intro full
      cases full
  | updateEmptyFull i =>
      cases stepped
      exact update_all (P := fun t => Truthful t.filter) truthful i id

theorem step_needs (truthful : ∀ i, Truthful (s i).filter) (stepped : step s event = some next)
    (sound : ∀ i, (next i).Sound) : Allowed s event := by
  cases event with
  | insert i vKey =>
      obtain ⟨t, inserted, _⟩ := Option.map_eq_some_iff.mp stepped
      exact ⟨truthful i, insert_needs vKey inserted⟩
  | merge i j =>
      obtain ⟨t, merged, same⟩ := Option.map_eq_some_iff.mp stepped
      have here := sound i
      rw [← same, Function.update_self] at here
      exact merge_needs merged here
  | clear i => trivial
  | updateEmptyFull i =>
      cases stepped
      have here := sound i
      rw [Function.update_self] at here
      exact updateEmptyFull_needs here

def start (initial : I → CBloomFilter) : I → TrackedFilter := fun i => ⟨initial i, []⟩

omit [DecidableEq I] in
theorem start_kept {initial : I → CBloomFilter} (divides : ∀ i, Divides (initial i)) (i : I) :
    (start initial i).Kept where
  divides := divides i
  stored _ mem := absurd mem List.not_mem_nil
  shown some_key := absurd rfl some_key

theorem safeRun_iff_allowed {initial : I → CBloomFilter} (events : List (Event I))
    (divides : ∀ i, Divides (initial i)) (truthful : ∀ i, Truthful (initial i)) :
    Machine.SafeRun step (fun s => ∀ i, (s i).Sound) (start initial) events ↔
      Machine.Along Allowed step (start initial) events := by
  refine Machine.safeRun_iff step Allowed
    (fun s => (∀ i, (s i).Kept) ∧ ∀ i, Truthful (s i).filter) _ (fun s held i => (held.1 i).sound)
    ?_ (fun s event next held => step_needs held.2) _ events ⟨start_kept divides, truthful⟩
  intro s event held allowed
  obtain ⟨next, stepped, kept⟩ := step_kept held.1 event allowed
  exact ⟨next, stepped, kept, step_truthful held.2 stepped⟩

/-- Filters that share events keep every key as long as their operations are allowed; where isFull
is truthful at first, they do so only then. -/
theorem bloom_no_false_negatives (initial : I → CBloomFilter) (events : List (Event I)) :
    ((∀ i, Divides (initial i)) → Machine.Along Allowed step (start initial) events →
      Machine.SafeRun step (fun s => ∀ i, (s i).Sound) (start initial) events) ∧
    ((∀ i, Truthful (initial i)) →
      (Machine.SafeRun step (fun s => ∀ i, (s i).Sound) (start initial) events ↔
        (∀ i, Divides (initial i)) ∧ Machine.Along Allowed step (start initial) events)) := by
  refine ⟨fun divides along => ?_, fun truthful => ⟨fun safe => ?_, fun holds => ?_⟩⟩
  · exact Machine.safeRun_of_along step Allowed (fun s => ∀ i, (s i).Kept) _
      (fun s kept i => (kept i).sound) (fun s event kept => step_kept kept event) _ events
      (start_kept divides) along
  · have divides (i : I) : Divides (initial i) :=
      divides_of_total (t := start initial i) [] ((safe.2 [] List.nil_prefix _ rfl i).1 [])
    exact ⟨divides, (safeRun_iff_allowed events divides truthful).mp safe⟩
  · exact (safeRun_iff_allowed events holds.1 truthful).mpr holds.2

/-- Filters within the size constraints: an insertion into a cleared filter of no bytes, a merge
with a filter that matches all, a merge into a cleared filter, and a filter without hash functions
that is checked for emptiness. -/
theorem bloom_loses :
    (¬ ∀ initial : Bool → CBloomFilter, (∀ i, (initial i).isWithinSizeConstraints = true) →
      ∀ events, Machine.SafeRun step (fun s => ∀ i, (s i).Sound) (start initial) events) ∧
    (∀ filter ∈ [(⟨[], true, true, 5, 0⟩ : CBloomFilter), ⟨[0], false, false, 1, 0⟩,
      ⟨[0xff], true, false, 1, 0⟩, ⟨[0], false, false, 0, 0⟩], filter.isWithinSizeConstraints = true) ∧
    Machine.run step (start fun _ : Bool => ⟨[], true, true, 5, 0⟩)
      [.clear true, .insert true [1]] = none ∧
    step (start fun i : Bool => if i then ⟨[0], false, false, 1, 0⟩ else ⟨[0xff], true, false, 1, 0⟩)
      (.merge true false) = none ∧
    (Machine.run step (start fun _ : Bool => ⟨[0], false, false, 1, 0⟩)
        [.clear true, .insert false [1], .merge true false]).map
      (fun s => ((s true).keys, (s true).filter.contains [1])) = some ([[1]], some false) ∧
    (Machine.run step (start fun _ : Bool => ⟨[0], false, false, 0, 0⟩)
        [.insert true [1], .updateEmptyFull true]).map
      (fun s => ((s true).keys, (s true).filter.contains [1])) = some ([[1]], some false) := by
  refine ⟨fun claim => ?_, by decide +kernel⟩
  obtain ⟨final, ran⟩ := (claim (fun _ => ⟨[], true, true, 5, 0⟩) (fun _ => rfl)
    [.clear true, .insert true [1]]).1
  have stopped : Machine.run step (start fun _ : Bool => ⟨[], true, true, 5, 0⟩)
      [.clear true, .insert true [1]] = none := by decide +kernel
  rw [stopped] at ran
  cases ran

end history

end TrackedFilter

end CryptoYen
