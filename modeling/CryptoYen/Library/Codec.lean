import CryptoYen.Library.Assoc
import Mathlib.Data.List.Sort

set_option autoImplicit false

structure Failures (E : Type) where
  endOfData : E
  nonCanonical : E
  tooLarge : E

/-- A format: how a value is written, and what reading it gives back. `Typed` is what the type of
the value promises, `Fits` what the reader demands on top of that. -/
structure Codec (E α : Type) where
  write : α → List UInt8
  read : List UInt8 → Except E (α × List UInt8)
  Typed : α → Prop
  Fits : α → Prop
  back : α → α
  read_fits : ∀ a, Typed a → Fits a → ∀ rest, read (write a ++ rest) = .ok (back a, rest)
  read_unfit : ∀ a, Typed a → ¬ Fits a → ∀ rest, ∃ failure, read (write a ++ rest) = .error failure

namespace Codec

variable {E α β : Type}

section bytes

def leBytes : Nat → Nat → List UInt8
  | 0, _ => []
  | width + 1, n => UInt8.ofNat (n % 256) :: leBytes width (n / 256)

def leValue : List UInt8 → Nat
  | [] => 0
  | byte :: rest => byte.toNat + 256 * leValue rest

@[simp] theorem leBytes_length (width n : Nat) : (leBytes width n).length = width := by
  induction width generalizing n with
  | zero => rfl
  | succ width ih => simp [leBytes, ih]

theorem leValue_leBytes (width n : Nat) (bound : n < 256 ^ width) :
    leValue (leBytes width n) = n := by
  induction width generalizing n with
  | zero =>
      have zero : n = 0 := by simpa using bound
      simp [leBytes, leValue, zero]
  | succ width ih =>
      have rest : n / 256 < 256 ^ width := by
        rw [Nat.div_lt_iff_lt_mul (by decide), ← Nat.pow_succ]
        exact bound
      simp only [leBytes, leValue, ih _ rest, UInt8.toNat_ofNat', Nat.reducePow, Nat.mod_mod]
      omega

theorem leBytes_leValue (bytes : List UInt8) : leBytes bytes.length (leValue bytes) = bytes := by
  induction bytes with
  | nil => rfl
  | cons byte bytes ih =>
      have bound := byte.toNat_lt
      have low : (byte.toNat + 256 * leValue bytes) % 256 = byte.toNat := by omega
      have high : (byte.toNat + 256 * leValue bytes) / 256 = leValue bytes := by omega
      rw [List.length_cons, leValue, leBytes, low, high, ih, UInt8.ofNat_toNat]

def takeBytes (fail : Failures E) (n : Nat) (bytes : List UInt8) :
    Except E (List UInt8 × List UInt8) :=
  if bytes.length < n then .error fail.endOfData else .ok (bytes.take n, bytes.drop n)

theorem takeBytes_append (fail : Failures E) (field rest : List UInt8) :
    takeBytes fail field.length (field ++ rest) = .ok (field, rest) := by
  simp [takeBytes]

def nat (fail : Failures E) (width : Nat) : Codec E Nat where
  write := leBytes width
  read bytes := (takeBytes fail width bytes).map fun (field, rest) => (leValue field, rest)
  Typed n := n < 256 ^ width
  Fits _ := True
  back := id
  read_fits n typed _ rest := by
    have taken := takeBytes_append fail (leBytes width n) rest
    rw [leBytes_length] at taken
    rw [taken]
    simp [Except.map, leValue_leBytes width n typed]
  read_unfit _ _ unfit := absurd trivial unfit

def int (fail : Failures E) (width : Nat) : Codec E Int where
  write n := leBytes width (n % (256 ^ width : Nat)).toNat
  read bytes := (takeBytes fail width bytes).map fun (field, rest) =>
    (if 2 * leValue field < 256 ^ width then (leValue field : Int)
      else (leValue field : Int) - (256 ^ width : Nat), rest)
  Typed n := -(256 ^ width : Nat) ≤ 2 * n ∧ 2 * n < (256 ^ width : Nat)
  Fits _ := True
  back := id
  read_fits n typed _ rest := by
    have positive : 0 < 256 ^ width := Nat.pow_pos (by decide)
    have low := Int.emod_nonneg n (show ((256 ^ width : Nat) : Int) ≠ 0 by omega)
    have high := Int.emod_lt_of_pos n (show (0 : Int) < (256 ^ width : Nat) by omega)
    have taken := takeBytes_append fail (leBytes width (n % (256 ^ width : Nat)).toNat) rest
    rw [leBytes_length] at taken
    rw [taken]
    simp only [Except.map, id_eq, Except.ok.injEq, Prod.mk.injEq, and_true]
    rw [leValue_leBytes width _ (by omega)]
    by_cases below : n < 0
    · have same : n % (256 ^ width : Nat) = n + (256 ^ width : Nat) := by
        rw [← Int.add_emod_right]
        exact Int.emod_eq_of_lt (by omega) (by omega)
      rw [same, if_neg (by omega)]
      omega
    · have same : n % (256 ^ width : Nat) = n := Int.emod_eq_of_lt (by omega) (by omega)
      rw [same, if_pos (by omega)]
      omega
  read_unfit _ _ unfit := absurd trivial unfit

end bytes

section fields

-- A value that is written through what is read of it.
def via (c : Codec E α) (get : β → α) (make : α → β) : Codec E β where
  write b := c.write (get b)
  read bytes := (c.read bytes).map fun (a, rest) => (make a, rest)
  Typed b := c.Typed (get b)
  Fits b := c.Fits (get b)
  back b := make (c.back (get b))
  read_fits b typed fits rest := by rw [c.read_fits _ typed fits]; rfl
  read_unfit b typed unfit rest := by
    obtain ⟨failure, failed⟩ := c.read_unfit _ typed unfit rest
    exact ⟨failure, by rw [failed]; rfl⟩

def pair (c : Codec E α) (d : Codec E β) : Codec E (α × β) where
  write ab := c.write ab.1 ++ d.write ab.2
  read bytes := do
    let (a, bytes) ← c.read bytes
    let (b, rest) ← d.read bytes
    return ((a, b), rest)
  Typed ab := c.Typed ab.1 ∧ d.Typed ab.2
  Fits ab := c.Fits ab.1 ∧ d.Fits ab.2
  back ab := (c.back ab.1, d.back ab.2)
  read_fits ab typed fits rest := by
    rw [List.append_assoc, c.read_fits _ typed.1 fits.1]
    simp only [bind, Except.bind, d.read_fits _ typed.2 fits.2]
    rfl
  read_unfit ab typed unfit rest := by
    rw [List.append_assoc]
    by_cases first : c.Fits ab.1
    · obtain ⟨failure, failed⟩ := d.read_unfit _ typed.2 (fun second => unfit ⟨first, second⟩) rest
      rw [c.read_fits _ typed.1 first]
      exact ⟨failure, by simp only [bind, Except.bind, failed]⟩
    · obtain ⟨failure, failed⟩ := c.read_unfit _ typed.1 first (d.write ab.2 ++ rest)
      exact ⟨failure, by rw [failed]; rfl⟩

-- A field whose format depends on what was read before it.
def depend (c : Codec E α) (d : α → Codec E β) (same : ∀ a, c.back a = a) : Codec E (α × β) where
  write ab := c.write ab.1 ++ (d ab.1).write ab.2
  read bytes := do
    let (a, bytes) ← c.read bytes
    let (b, rest) ← (d a).read bytes
    return ((a, b), rest)
  Typed ab := c.Typed ab.1 ∧ (d ab.1).Typed ab.2
  Fits ab := c.Fits ab.1 ∧ (d ab.1).Fits ab.2
  back ab := (ab.1, (d ab.1).back ab.2)
  read_fits ab typed fits rest := by
    rw [List.append_assoc, c.read_fits _ typed.1 fits.1, same]
    simp only [bind, Except.bind, (d ab.1).read_fits _ typed.2 fits.2]
    rfl
  read_unfit ab typed unfit rest := by
    rw [List.append_assoc]
    by_cases first : c.Fits ab.1
    · obtain ⟨failure, failed⟩ :=
        (d ab.1).read_unfit _ typed.2 (fun second => unfit ⟨first, second⟩) rest
      rw [c.read_fits _ typed.1 first, same]
      exact ⟨failure, by simp only [bind, Except.bind, failed]⟩
    · obtain ⟨failure, failed⟩ := c.read_unfit _ typed.1 first ((d ab.1).write ab.2 ++ rest)
      exact ⟨failure, by rw [failed]; rfl⟩

def ensure (c : Codec E α) (test : α → Bool) (failure : E) : Codec E α where
  write := c.write
  read bytes := do
    let (a, rest) ← c.read bytes
    if test a then return (a, rest) else throw failure
  Typed := c.Typed
  Fits a := c.Fits a ∧ test (c.back a) = true
  back := c.back
  read_fits a typed fits rest := by
    rw [c.read_fits a typed fits.1]
    simp only [bind, Except.bind, fits.2, if_true]
    rfl
  read_unfit a typed unfit rest := by
    by_cases first : c.Fits a
    · rw [c.read_fits a typed first]
      have refused : test (c.back a) ≠ true := fun passed => unfit ⟨first, passed⟩
      exact ⟨failure, by simp only [bind, Except.bind, if_neg refused]; rfl⟩
    · obtain ⟨other, failed⟩ := c.read_unfit a typed first rest
      exact ⟨other, by rw [failed]; rfl⟩

end fields

section sizes

def writeCompactSize (n : Nat) : List UInt8 :=
  if n < 253 then [UInt8.ofNat n]
  else if n ≤ 0xffff then 253 :: leBytes 2 n
  else if n ≤ 0xffffffff then 254 :: leBytes 4 n
  else 255 :: leBytes 8 n

def readLong (fail : Failures E) (width least : Nat) (bytes : List UInt8) :
    Except E (Nat × List UInt8) := do
  let (field, rest) ← takeBytes fail width bytes
  if leValue field < least then .error fail.nonCanonical else .ok (leValue field, rest)

def readCompactSize (fail : Failures E) (maxSize : Nat) :
    List UInt8 → Except E (Nat × List UInt8)
  | [] => .error fail.endOfData
  | chSize :: bytes => do
      let (nSizeRet, rest) ←
        if chSize < 253 then .ok (chSize.toNat, bytes)
        else if chSize = 253 then readLong fail 2 253 bytes
        else if chSize = 254 then readLong fail 4 0x10000 bytes
        else readLong fail 8 0x100000000 bytes
      if maxSize < nSizeRet then .error fail.tooLarge else .ok (nSizeRet, rest)

theorem readLong_leBytes (fail : Failures E) (width least n : Nat) (low : least ≤ n)
    (high : n < 256 ^ width) (rest : List UInt8) :
    readLong fail width least (leBytes width n ++ rest) = .ok (n, rest) := by
  have taken := takeBytes_append fail (leBytes width n) rest
  rw [leBytes_length] at taken
  simp only [readLong, taken, bind, Except.bind, leValue_leBytes width n high]
  rw [if_neg (by omega)]

theorem readCompactSize_write (fail : Failures E) (maxSize n : Nat) (typed : n < 256 ^ 8)
    (rest : List UInt8) :
    readCompactSize fail maxSize (writeCompactSize n ++ rest) =
      if maxSize < n then .error fail.tooLarge else .ok (n, rest) := by
  unfold writeCompactSize
  split
  next short =>
    have byte : UInt8.ofNat n < 253 := by
      rw [UInt8.lt_iff_toNat_lt, UInt8.toNat_ofNat']
      simp only [UInt8.reduceToNat]
      omega
    have value : (UInt8.ofNat n).toNat = n := by
      rw [UInt8.toNat_ofNat']
      omega
    simp only [List.cons_append, List.nil_append, readCompactSize, byte, if_pos, value, bind,
      Except.bind]
  next =>
    split
    next =>
      have self : ¬ (253 : UInt8) < 253 := by decide
      simp only [List.cons_append, readCompactSize, self, if_false, if_pos, bind, Except.bind,
        readLong_leBytes fail 2 253 n (by omega) (by omega) rest]
    next =>
      have shorter : ¬ (254 : UInt8) < 253 ∧ ¬ (254 : UInt8) = 253 := by decide
      have longer : ¬ (255 : UInt8) < 253 ∧ ¬ (255 : UInt8) = 253 ∧ ¬ (255 : UInt8) = 254 := by decide
      split
      next =>
        simp only [List.cons_append, readCompactSize, shorter, if_false, if_pos, bind, Except.bind,
          readLong_leBytes fail 4 0x10000 n (by omega) (by omega) rest]
      next =>
        simp only [List.cons_append, readCompactSize, longer, if_false, bind, Except.bind,
          readLong_leBytes fail 8 0x100000000 n (by omega) typed rest]

end sizes

section variable_length

-- Seven bits a byte, the lowest last; a byte that is not the last one is marked and counts one more.
def varBytes (mark n : Nat) : List UInt8 :=
  if n < 128 then [UInt8.ofNat (n + mark)]
  else varBytes 128 (n / 128 - 1) ++ [UInt8.ofNat (n % 128 + mark)]
termination_by n
decreasing_by omega

def readVarBytes (fail : Failures E) (bits : Nat) : Nat → List UInt8 → Except E (Nat × List UInt8)
  | _, [] => .error fail.endOfData
  | n, chData :: rest =>
      let n := (n * 128 + chData.toNat % 128) % 2 ^ bits
      if chData.toNat < 128 then .ok (n, rest)
      else readVarBytes fail bits ((n + 1) % 2 ^ bits) rest

theorem readVarBytes_byte (fail : Failures E) (bits high mark low : Nat) (small : low < 128)
    (fits : high * 128 + low < 2 ^ bits) (rest : List UInt8) (marked : mark = 0 ∨ mark = 128) :
    readVarBytes fail bits high (UInt8.ofNat (low + mark) :: rest) =
      if mark = 0 then .ok (high * 128 + low, rest)
      else readVarBytes fail bits ((high * 128 + low + 1) % 2 ^ bits) rest := by
  have value : (UInt8.ofNat (low + mark)).toNat = low + mark := by
    rw [UInt8.toNat_ofNat']
    omega
  rw [readVarBytes]
  simp only [value]
  rcases marked with rfl | rfl
  · have low7 : (low + 0) % 128 = low := by omega
    rw [low7, Nat.mod_eq_of_lt fits, if_pos (by omega), if_pos rfl]
  · have low7 : (low + 128) % 128 = low := by omega
    rw [low7, Nat.mod_eq_of_lt fits, if_neg (by omega), if_neg (by decide)]

theorem readVarBytes_varBytes (fail : Failures E) (bits mark n : Nat) (marked : mark = 0 ∨ mark = 128)
    (fits : n < 2 ^ bits) (rest : List UInt8) :
    readVarBytes fail bits 0 (varBytes mark n ++ rest) =
      if mark = 0 then .ok (n, rest) else readVarBytes fail bits ((n + 1) % 2 ^ bits) rest := by
  induction n using Nat.strong_induction_on generalizing mark rest with
  | _ n ih =>
      rw [varBytes]
      split
      next small =>
        have byte := readVarBytes_byte fail bits 0 mark n small (by omega) rest marked
        simpa using byte
      next big =>
        have prior := ih (n / 128 - 1) (by omega) 128 (.inr rfl) (by omega)
          (UInt8.ofNat (n % 128 + mark) :: rest)
        have high : (n / 128 - 1 + 1) % 2 ^ bits = n / 128 := by
          rw [Nat.sub_add_cancel (by omega)]
          exact Nat.mod_eq_of_lt (by omega)
        have whole : n / 128 * 128 + n % 128 = n := by omega
        rw [List.append_assoc, List.singleton_append, prior, if_neg (by decide), high,
          readVarBytes_byte fail bits (n / 128) mark (n % 128) (by omega) (by omega) rest marked,
          whole]

end variable_length

section lists

variable (fail : Failures E) (maxSize : Nat) (c : Codec E α)

def readMany : Nat → List UInt8 → Except E (List α × List UInt8)
  | 0, bytes => .ok ([], bytes)
  | n + 1, bytes => do
      let (a, bytes) ← c.read bytes
      let (as, rest) ← readMany n bytes
      return (a :: as, rest)

theorem readMany_fits (as : List α) (typed : ∀ a ∈ as, c.Typed a) (fits : ∀ a ∈ as, c.Fits a)
    (rest : List UInt8) :
    c.readMany as.length (as.flatMap c.write ++ rest) = .ok (as.map c.back, rest) := by
  induction as with
  | nil => rfl
  | cons a as ih =>
      simp only [List.forall_mem_cons] at typed fits
      rw [List.flatMap_cons, List.append_assoc, List.length_cons, readMany,
        c.read_fits a typed.1 fits.1]
      simp only [bind, Except.bind, ih typed.2 fits.2]
      rfl

theorem readMany_unfit (as : List α) (typed : ∀ a ∈ as, c.Typed a)
    (unfit : ¬ ∀ a ∈ as, c.Fits a) (rest : List UInt8) :
    ∃ failure, c.readMany as.length (as.flatMap c.write ++ rest) = .error failure := by
  induction as with
  | nil => exact absurd (by simp) unfit
  | cons a as ih =>
      simp only [List.forall_mem_cons] at typed
      rw [List.flatMap_cons, List.append_assoc, List.length_cons, readMany]
      by_cases first : c.Fits a
      · have later : ¬ ∀ a ∈ as, c.Fits a := fun all => unfit (List.forall_mem_cons.mpr ⟨first, all⟩)
        obtain ⟨failure, failed⟩ := ih typed.2 later
        rw [c.read_fits a typed.1 first]
        exact ⟨failure, by simp only [bind, Except.bind, failed]⟩
      · obtain ⟨failure, failed⟩ := c.read_unfit a typed.1 first (as.flatMap c.write ++ rest)
        exact ⟨failure, by rw [failed]; rfl⟩

def times (n : Nat) : Codec E (List α) where
  write as := as.flatMap c.write
  read := c.readMany n
  Typed as := as.length = n ∧ ∀ a ∈ as, c.Typed a
  Fits as := ∀ a ∈ as, c.Fits a
  back as := as.map c.back
  read_fits as typed fits rest := typed.1 ▸ c.readMany_fits as typed.2 fits rest
  read_unfit as typed unfit rest := typed.1 ▸ c.readMany_unfit as typed.2 unfit rest

def list : Codec E (List α) where
  write as := writeCompactSize as.length ++ as.flatMap c.write
  read bytes := do
    let (n, bytes) ← readCompactSize fail maxSize bytes
    c.readMany n bytes
  Typed as := as.length < 256 ^ 8 ∧ ∀ a ∈ as, c.Typed a
  Fits as := as.length ≤ maxSize ∧ ∀ a ∈ as, c.Fits a
  back as := as.map c.back
  read_fits as typed fits rest := by
    rw [List.append_assoc, readCompactSize_write fail maxSize _ typed.1, if_neg (by omega)]
    exact c.readMany_fits as typed.2 fits.2 rest
  read_unfit as typed unfit rest := by
    rw [List.append_assoc, readCompactSize_write fail maxSize _ typed.1]
    by_cases short : maxSize < as.length
    · exact ⟨fail.tooLarge, by rw [if_pos short]; rfl⟩
    · rw [if_neg short]
      exact c.readMany_unfit as typed.2 (fun all => unfit ⟨by omega, all⟩) rest

theorem list_write_back (same : ∀ a, c.write (c.back a) = c.write a) (as : List α) :
    (list fail maxSize c).write ((list fail maxSize c).back as) = (list fail maxSize c).write as := by
  simp only [list, List.length_map, List.flatMap_map, same]

def byte : Codec E UInt8 :=
  (nat fail 1).via UInt8.toNat UInt8.ofNat

def blob : Codec E (List UInt8) := list fail maxSize (byte fail)

theorem blob_back (bytes : List UInt8) : (blob fail maxSize).back bytes = bytes := by
  refine (List.map_congr_left fun b _ => ?_).trans (List.map_id bytes)
  exact UInt8.ofNat_toNat

end lists

section maps

variable {K R V : Type} [LinearOrder R] (rank : K → R)

def sortedEntries (map : AList fun _ : K => V) : List (K × V) :=
  (map.entries.insertionSort fun a b => rank a.1 ≤ rank b.1).map fun item => (item.1, item.2)

theorem sortedEntries_perm (map : AList fun _ : K => V) :
    (sortedEntries rank map).Perm (map.entries.map fun item => (item.1, item.2)) :=
  (List.perm_insertionSort _ map.entries).map _

theorem sumBy_sortedEntries {M : Type} [AddCommMonoid M] (measure : V → M)
    (map : AList fun _ : K => V) :
    Assoc.sumBy measure map = ((sortedEntries rank map).map fun item => measure item.2).sum := by
  rw [((sortedEntries_perm rank map).map fun item => measure item.2).sum_eq, List.map_map]
  rfl

theorem sortedEntries_length (map : AList fun _ : K => V) :
    (sortedEntries rank map).length = map.entries.length := by
  simp [sortedEntries]

theorem sortedEntries_distinct (map : AList fun _ : K => V) :
    ((sortedEntries rank map).map Prod.fst).Nodup := by
  refine ((sortedEntries_perm rank map).map Prod.fst).nodup_iff.mpr ?_
  rw [List.map_map]
  exact map.nodupKeys

theorem sortedEntries_sorted (map : AList fun _ : K => V) :
    (sortedEntries rank map).Pairwise fun a b => rank a.1 ≤ rank b.1 := by
  have total : Std.Total fun a b : Sigma fun _ : K => V => rank a.1 ≤ rank b.1 :=
    ⟨fun a b => le_total (rank a.1) (rank b.1)⟩
  have trans : IsTrans (Sigma fun _ : K => V) fun a b => rank a.1 ≤ rank b.1 :=
    ⟨fun a b c first second => first.trans second⟩
  exact List.pairwise_map.mpr (List.pairwise_insertionSort _ map.entries)

variable [DecidableEq K]

def fromEntries (items : List (K × V)) : AList fun _ : K => V :=
  items.foldl (fun map item => Assoc.insertNew map item.1 item.2) ∅

theorem mem_sortedEntries (map : AList fun _ : K => V) (key : K) (value : V) :
    (key, value) ∈ sortedEntries rank map ↔ map.lookup key = some value := by
  rw [← Assoc.mem_entries, sortedEntries, List.mem_map]
  constructor
  · rintro ⟨⟨key', value'⟩, member, same⟩
    cases same
    exact (List.mem_insertionSort _).mp member
  · intro member
    exact ⟨⟨key, value⟩, (List.mem_insertionSort _).mpr member, rfl⟩

theorem sortedEntries_congr (injective : Function.Injective rank) (map other : AList fun _ : K => V)
    (same : ∀ key, map.lookup key = other.lookup key) : sortedEntries rank map = sortedEntries rank other := by
  have perm : (sortedEntries rank map).Perm (sortedEntries rank other) := by
    refine (List.perm_ext_iff_of_nodup (sortedEntries_distinct rank map).of_map
      (sortedEntries_distinct rank other).of_map).mpr fun item => ?_
    rw [mem_sortedEntries, mem_sortedEntries, same]
  refine List.Perm.eq_of_pairwise (fun a b here there low high => ?_) (sortedEntries_sorted rank map)
    (sortedEntries_sorted rank other) perm
  have keys : a.1 = b.1 := injective (le_antisymm low high)
  have left := (mem_sortedEntries rank map a.1 a.2).mp here
  have right := (mem_sortedEntries rank other b.1 b.2).mp there
  rw [same, keys, right] at left
  exact Prod.ext keys (Option.some.inj left).symm

theorem lookup_foldl_insertNew (items : List (K × V)) (map : AList fun _ : K => V) (key : K) :
    (items.foldl (fun map item => Assoc.insertNew map item.1 item.2) map).lookup key =
      (map.lookup key).or ((items.find? fun item => item.1 == key).map Prod.snd) := by
  induction items generalizing map with
  | nil => simp
  | cons item rest ih =>
      rw [List.foldl_cons, ih, Assoc.lookup_insertNew, List.find?_cons]
      by_cases same : key = item.1
      · subst same
        cases map.lookup item.1 <;> simp
      · have other : (item.1 == key) = false := by simpa using Ne.symm same
        simp [same, other]

theorem lookup_fromEntries (items : List (K × V)) (distinct : (items.map Prod.fst).Nodup)
    (key : K) (value : V) : (fromEntries items).lookup key = some value ↔ (key, value) ∈ items := by
  rw [fromEntries, lookup_foldl_insertNew, AList.lookup_empty, Option.none_or, Option.map_eq_some_iff]
  constructor
  · rintro ⟨item, found, rfl⟩
    have here : item.1 = key := by simpa using List.find?_some found
    exact here ▸ List.mem_of_find?_eq_some found
  · intro member
    cases found : items.find? fun item => item.1 == key with
    | none => simpa using List.find?_eq_none.mp found _ member
    | some item =>
        have here : item.1 = key := by simpa using List.find?_some found
        have same := List.inj_on_of_nodup_map distinct (List.mem_of_find?_eq_some found) member here
        exact ⟨item, rfl, by rw [same]⟩

theorem fromEntries_perm (items : List (K × V)) (distinct : (items.map Prod.fst).Nodup) :
    ((fromEntries items).entries.map fun item => (item.1, item.2)).Perm items := by
  have keys := (sortedEntries_distinct (fun _ : K => 0) (fromEntries items)).of_map
  have nodup := (sortedEntries_perm (fun _ : K => 0) (fromEntries items)).nodup_iff.mp keys
  refine (List.perm_ext_iff_of_nodup nodup distinct.of_map).mpr fun (key, value) => ?_
  rw [← lookup_fromEntries items distinct, ← Assoc.mem_entries, List.mem_map]
  constructor
  · intro ⟨⟨key', value'⟩, member, same⟩
    cases same
    exact member
  · exact fun member => ⟨⟨key, value⟩, member, rfl⟩

variable (fail : Failures E) (maxSize : Nat) (k : Codec E K) (v : Codec E V)

def map : Codec E (AList fun _ : K => V) :=
  (list fail maxSize (pair k v)).via (sortedEntries rank) fromEntries

theorem map_typed (m : AList fun _ : K => V) :
    (map rank fail maxSize k v).Typed m ↔
      m.entries.length < 256 ^ 8 ∧
        ∀ key value, m.lookup key = some value → k.Typed key ∧ v.Typed value := by
  refine and_congr (by rw [sortedEntries_length]) ?_
  simp only [pair, Prod.forall, mem_sortedEntries]

theorem map_fits (m : AList fun _ : K => V) :
    (map rank fail maxSize k v).Fits m ↔
      m.entries.length ≤ maxSize ∧
        ∀ key value, m.lookup key = some value → k.Fits key ∧ v.Fits value := by
  refine and_congr (by rw [sortedEntries_length]) ?_
  simp only [pair, Prod.forall, mem_sortedEntries]

theorem lookup_map_back (keyed : ∀ key, k.back key = key) (m : AList fun _ : K => V) (key : K) :
    ((map rank fail maxSize k v).back m).lookup key = (m.lookup key).map v.back := by
  have items : ∀ items : List (K × V), (items.map (pair k v).back).map Prod.fst =
      items.map Prod.fst := by
    intro items
    rw [List.map_map]
    exact List.map_congr_left fun item _ => keyed item.1
  have distinct : (((sortedEntries rank m).map (pair k v).back).map Prod.fst).Nodup := by
    rw [items]
    exact sortedEntries_distinct rank m
  refine Option.ext fun value => ?_
  refine (lookup_fromEntries _ distinct key value).trans ?_
  rw [List.mem_map, Option.map_eq_some_iff]
  constructor
  · rintro ⟨⟨key', old⟩, member, same⟩
    rw [mem_sortedEntries] at member
    cases same
    exact ⟨old, (keyed key').symm ▸ member, rfl⟩
  · rintro ⟨old, present, rfl⟩
    exact ⟨(key, old), (mem_sortedEntries rank m key old).mpr present, by simp [pair, keyed]⟩

end maps

end Codec
