import Mathlib.Data.List.DropRight
import CryptoYen.Library.Radix

set_option autoImplicit false

namespace CryptoYen

namespace Base58

def pszBase58 : List Char := "123456789ABCDEFGHJKLMNPQRSTUVWXYZabcdefghijkmnopqrstuvwxyz".toList

def NUL : Char := Char.ofNat 0

-- In the C locale.
def isspace (c : Char) : Bool := c == ' ' || (9 ≤ c.toNat && c.toNat ≤ 13)

inductive Halt
  -- zeroes, an int, is at its maximum when one more is counted.
  | overflow
  | assertion
  | outOfRange
  deriving DecidableEq, Repr

/-- Counts what stands in front, in an int. -/
def skipLeading {A : Type} (leads : A → Bool) : Nat → List A → Except Halt (Nat × List A)
  | zeroes, [] => .ok (zeroes, [])
  | zeroes, c :: rest =>
      if leads c then
        if zeroes = 2 ^ 31 - 1 then .error .overflow else skipLeading leads (zeroes + 1) rest
      else .ok (zeroes, c :: rest)

def strchr (c : Char) : Option Nat := pszBase58.idxOf? c

-- Process the characters, up to the end or a space; none where one is not in the table.
def processChars : List Nat → List Char → Except Halt (Option (List Nat × List Char))
  | b256, [] => .ok (some (b256, []))
  | b256, c :: psz =>
      if isspace c then .ok (some (b256, c :: psz))
      else
        match strchr c with
        | none => .ok none
        | some carry =>
            -- Apply "b256 = b256 * 58 + ch".
            match Radix.mulAdd 256 58 carry b256 with
            | none => .error .assertion
            | some b256 => processChars b256 psz

/-- DecodeBase58 of the characters in front of the terminator; none where it returns false. -/
def decodeBase58 (psz : List Char) : Except Halt (Option (List UInt8)) := do
  let (zeroes, psz) ← skipLeading (· == '1') 0 (psz.dropWhile isspace)
  -- log(58) / log(256), rounded up.
  let b256 := List.replicate (psz.length * 733 / 1000 + 1) 0
  match ← processChars b256 psz with
  | none => return none
  | some (b256, psz) =>
      if psz.dropWhile isspace ≠ [] then return none
      else
        return some (List.replicate zeroes 0 ++ (b256.dropWhile (· == 0)).map Nat.toUInt8)

-- The overload for std::string, which hands over c_str().
def decodeBase58String (str : List Char) : Except Halt (Option (List UInt8)) :=
  decodeBase58 (str.takeWhile (· != NUL))

def encodeBase58 (vch : List UInt8) : Except Halt (List Char) := do
  let (zeroes, bytes) ← skipLeading (· == 0) 0 vch
  -- log(256) / log(58), rounded up.
  let b58 := List.replicate (bytes.length * 138 / 100 + 1) 0
  -- Apply "b58 = b58 * 256 + ch".
  match Radix.convert 58 256 b58 (bytes.map UInt8.toNat) with
  | none => throw .assertion
  | some b58 =>
      -- Translate the result into a string.
      match (b58.dropWhile (· == 0)).mapM fun digit => pszBase58[digit]? with
      | none => throw .outOfRange
      | some str => return List.replicate zeroes '1' ++ str

def trim (s : List Char) : List Char := (s.dropWhile isspace).rdropWhile isspace

section leading

variable {A : Type}

theorem skipLeading_eq (leads : A → Bool) (zeroes : Nat) (xs : List A) (start : zeroes < 2 ^ 31) :
    skipLeading leads zeroes xs =
      if zeroes + (xs.takeWhile leads).length < 2 ^ 31 then
        .ok (zeroes + (xs.takeWhile leads).length, xs.dropWhile leads)
      else .error .overflow := by
  induction xs generalizing zeroes with
  | nil => exact (if_pos start).symm
  | cons c rest ih =>
      rw [skipLeading, List.takeWhile_cons, List.dropWhile_cons]
      by_cases lead : leads c = true
      · rw [if_pos lead, if_pos lead, if_pos lead, List.length_cons]
        by_cases full : zeroes = 2 ^ 31 - 1
        · rw [if_pos full, if_neg (by omega)]
        · rw [if_neg full, ih (zeroes + 1) (by omega)]
          simp only [Nat.add_assoc, Nat.add_comm 1]
      · rw [if_neg lead, if_neg lead, if_neg lead]
        exact (if_pos start).symm

variable [BEq A] [LawfulBEq A]

theorem leading_split (a : A) (xs : List A) :
    List.replicate (xs.takeWhile (· == a)).length a ++ xs.dropWhile (· == a) = xs := by
  have same : xs.takeWhile (· == a) = List.replicate (xs.takeWhile (· == a)).length a :=
    List.eq_replicate_of_mem fun b mem =>
      eq_of_beq (List.mem_takeWhile_imp (p := fun b => b == a) mem)
  rw [← same, List.takeWhile_append_dropWhile]

theorem head?_left (a : A) (xs : List A) : (xs.dropWhile (· == a)).head? ≠ some a := by
  intro head
  have other := List.head?_dropWhile_not (· == a) xs
  rw [head] at other
  dsimp only at other
  rw [beq_self_eq_true] at other
  cases other

theorem takeWhile_leading (a : A) (count : Nat) (xs : List A) (head : xs.head? ≠ some a) :
    (List.replicate count a ++ xs).takeWhile (· == a) = List.replicate count a ∧
      (List.replicate count a ++ xs).dropWhile (· == a) = xs := by
  have all : ∀ b ∈ List.replicate count a, (b == a) = true := by
    intro b mem
    rw [List.eq_of_mem_replicate mem, beq_self_eq_true]
  rw [List.takeWhile_append_of_pos all, List.dropWhile_append_of_pos all]
  cases xs with
  | nil => exact ⟨List.append_nil _, rfl⟩
  | cons b rest =>
      have apart : ¬ (b == a) = true := fun same => head (by rw [eq_of_beq same]; rfl)
      rw [List.takeWhile_cons_of_neg (p := fun b => b == a) apart,
        List.dropWhile_cons_of_neg (p := fun b => b == a) apart]
      exact ⟨List.append_nil _, rfl⟩

end leading

section table

def letter (digit : Nat) : Char := pszBase58.getD digit '1'

theorem strchr_letter (digit : Nat) (small : digit < 58) : strchr (letter digit) = some digit := by
  have all : ∀ d : Fin 58, strchr (letter d) = some d.val := by decide
  exact all ⟨digit, small⟩

theorem letter_strchr {c : Char} {digit : Nat} (found : strchr c = some digit) :
    digit < 58 ∧ letter digit = c := by
  obtain ⟨inside, same, _⟩ := List.idxOf?_eq_some_iff.mp found
  refine ⟨inside, ?_⟩
  rw [letter, List.getD_eq_getElem?_getD, List.getElem?_eq_getElem inside, Option.getD_some, same]

theorem letter_getElem? (digit : Nat) (small : digit < 58) :
    pszBase58[digit]? = some (letter digit) := by
  have inside : digit < pszBase58.length := small
  rw [letter, List.getD_eq_getElem?_getD, List.getElem?_eq_getElem inside, Option.getD_some]

theorem letter_injective (a b : Nat) (smallA : a < 58) (smallB : b < 58)
    (same : letter a = letter b) : a = b := by
  have found := strchr_letter a smallA
  rw [same, strchr_letter b smallB] at found
  exact (Option.some.inj found).symm

theorem letter_not_space (digit : Nat) (small : digit < 58) : isspace (letter digit) = false := by
  have all : ∀ d : Fin 58, isspace (letter d) = false := by decide
  exact all ⟨digit, small⟩

theorem mapM_strchr (digits : List Nat) (small : ∀ digit ∈ digits, digit < 58) :
    (digits.map letter).mapM strchr = some digits := by
  induction digits with
  | nil => rfl
  | cons digit rest ih =>
      rw [List.map_cons, List.mapM_cons, strchr_letter digit (small digit List.mem_cons_self),
        ih fun other mem => small other (List.mem_cons_of_mem _ mem)]
      rfl

theorem mapM_letter (digits : List Nat) (small : ∀ digit ∈ digits, digit < 58) :
    digits.mapM (fun digit => pszBase58[digit]?) = some (digits.map letter) := by
  induction digits with
  | nil => rfl
  | cons digit rest ih =>
      rw [List.mapM_cons, letter_getElem? digit (small digit List.mem_cons_self),
        ih fun other mem => small other (List.mem_cons_of_mem _ mem)]
      rfl

theorem letters_of_mapM (chars : List Char) (digits : List Nat)
    (found : chars.mapM strchr = some digits) :
    (∀ digit ∈ digits, digit < 58) ∧ digits.map letter = chars := by
  induction chars generalizing digits with
  | nil =>
      cases found
      exact ⟨fun digit mem => absurd mem List.not_mem_nil, rfl⟩
  | cons c rest ih =>
      rw [List.mapM_cons] at found
      cases here : strchr c with
      | none =>
          rw [here] at found
          cases found
      | some digit =>
          cases later : rest.mapM strchr with
          | none =>
              rw [here, later] at found
              cases found
          | some others =>
              rw [here, later] at found
              cases found
              obtain ⟨small, same⟩ := ih others later
              obtain ⟨first, named⟩ := letter_strchr here
              refine ⟨?_, by rw [List.map_cons, same, named]⟩
              rintro other (_ | ⟨_, mem⟩)
              · exact first
              · exact small other mem

end table

section conversion

-- The sizes of the buffers: 58^1000 <= 256^733 and 256^100 <= 58^138.
theorem size_enough (base factor numerator denominator count : Nat) (many : 1 < base)
    (positive : 0 < denominator) (ratio : factor ^ denominator ≤ base ^ numerator) :
    factor ^ count ≤ base ^ (count * numerator / denominator + 1) := by
  have covered : numerator * count ≤ (count * numerator / denominator + 1) * denominator := by
    have split := Nat.div_add_mod (count * numerator) denominator
    have below := Nat.mod_lt (count * numerator) positive
    rw [Nat.mul_comm numerator, Nat.succ_mul, Nat.mul_comm _ denominator]
    omega
  have powers : (factor ^ count) ^ denominator ≤
      (base ^ (count * numerator / denominator + 1)) ^ denominator :=
    calc (factor ^ count) ^ denominator = (factor ^ denominator) ^ count := by
          rw [← Nat.pow_mul, ← Nat.pow_mul, Nat.mul_comm]
      _ ≤ (base ^ numerator) ^ count := Nat.pow_le_pow_left ratio count
      _ = base ^ (numerator * count) := (Nat.pow_mul ..).symm
      _ ≤ base ^ ((count * numerator / denominator + 1) * denominator) :=
          Nat.pow_le_pow_right (by omega) covered
      _ = (base ^ (count * numerator / denominator + 1)) ^ denominator := Nat.pow_mul ..
  exact (Nat.pow_le_pow_iff_left (Nat.ne_of_gt positive)).mp powers

theorem decode_room (count : Nat) : 58 ^ count ≤ 256 ^ (count * 733 / 1000 + 1) :=
  size_enough 256 58 733 1000 count (by decide) (by decide) (by decide +kernel)

theorem encode_room (count : Nat) : 256 ^ count ≤ 58 ^ (count * 138 / 100 + 1) :=
  size_enough 58 256 138 100 count (by decide) (by decide) (by decide +kernel)

theorem processChars_eq (psz : List Char) (b256 : List Nat) (cells : ∀ digit ∈ b256, digit < 256)
    (room : (Radix.value 256 b256 + 1) * 58 ^ psz.length ≤ 256 ^ b256.length) :
    (∃ digits final, (psz.takeWhile (!isspace ·)).mapM strchr = some digits ∧
      processChars b256 psz = .ok (some (final, psz.dropWhile (!isspace ·))) ∧
      (∀ digit ∈ final, digit < 256) ∧
      Radix.value 256 final =
        Radix.value 256 b256 * 58 ^ digits.length + Radix.value 58 digits) ∨
    ((psz.takeWhile (!isspace ·)).mapM strchr = none ∧ processChars b256 psz = .ok none) := by
  induction psz generalizing b256 with
  | nil => exact .inl ⟨[], b256, rfl, rfl, cells, by simp [Radix.value]⟩
  | cons c rest ih =>
      rw [processChars, List.takeWhile_cons, List.dropWhile_cons]
      cases space : isspace c with
      | true => exact .inl ⟨[], b256, rfl, rfl, cells, by simp [Radix.value]⟩
      | false =>
          simp only [Bool.not_false, ↓reduceIte, Bool.false_eq_true, List.mapM_cons]
          cases found : strchr c with
          | none => exact .inr ⟨rfl, rfl⟩
          | some carry =>
              have small := (letter_strchr found).1
              rw [List.length_cons] at room
              obtain ⟨next, done, length, inside, number⟩ := Radix.mulAdd_eq 256 58
                (by decide) carry b256 (Radix.room_lt 256 58 _ _ carry rest.length small room)
              have further := Radix.room_step 256 58 _ _ carry rest.length small room
              rw [← number, ← length] at further
              simp only [done]
              rcases ih next inside further with ⟨digits, final, named, ran, below, sum⟩ | ⟨named, ran⟩
              · refine .inl ⟨carry :: digits, final, by rw [named]; rfl, ran, below, ?_⟩
                rw [sum, number, Radix.value_cons, List.length_cons, Nat.pow_succ]
                ring
              · exact .inr ⟨by rw [named]; rfl, ran⟩

def bytesOf (digits : List Nat) : List UInt8 :=
  (Nat.digits 256 (Radix.value 58 digits)).reverse.map Nat.toUInt8

def digitsOf (bytes : List UInt8) : List Nat :=
  (Nat.digits 58 (Radix.value 256 (bytes.map UInt8.toNat))).reverse

theorem digitsOf_small (bytes : List UInt8) : ∀ digit ∈ digitsOf bytes, digit < 58 := by
  intro digit mem
  exact Nat.digits_lt_base (by decide) (List.mem_reverse.mp mem)

theorem bytes_small (bytes : List UInt8) : ∀ digit ∈ bytes.map UInt8.toNat, digit < 256 := by
  intro digit mem
  obtain ⟨byte, _, same⟩ := List.mem_map.mp mem
  rw [← same]
  exact byte.toNat_lt

theorem head?_digits (base number : Nat) : (Nat.digits base number).reverse.head? ≠ some 0 := by
  intro zero
  rw [List.head?_reverse] at zero
  by_cases none : number = 0
  · rw [none, Nat.digits_zero] at zero
    cases zero
  · rw [List.getLast?_eq_some_getLast (Nat.digits_ne_nil_iff_ne_zero.mpr none)] at zero
    exact Nat.getLast_digit_ne_zero base none (Option.some.inj zero)

theorem toNat_toUInt8 (digits : List Nat) (small : ∀ digit ∈ digits, digit < 256) :
    (digits.map Nat.toUInt8).map UInt8.toNat = digits := by
  rw [List.map_map]
  refine Eq.trans (List.map_congr_left fun digit mem => ?_) (List.map_id digits)
  exact UInt8.toNat_ofNat_of_lt' (small digit mem)

theorem bytesOf_toNat (digits : List Nat) :
    (bytesOf digits).map UInt8.toNat = (Nat.digits 256 (Radix.value 58 digits)).reverse :=
  toNat_toUInt8 _ fun _ mem => Nat.digits_lt_base (by decide) (List.mem_reverse.mp mem)

theorem digitsOf_bytesOf (digits : List Nat) (small : ∀ digit ∈ digits, digit < 58)
    (leading : digits.head? ≠ some 0) : digitsOf (bytesOf digits) = digits := by
  rw [digitsOf, bytesOf_toNat, Radix.value, List.reverse_reverse, Nat.ofDigits_digits,
    Radix.digits_value (by decide) digits small leading]

theorem bytesOf_digitsOf (bytes : List UInt8) (leading : bytes.head? ≠ some 0) :
    bytesOf (digitsOf bytes) = bytes := by
  have first : (bytes.map UInt8.toNat).head? ≠ some 0 := by
    cases bytes with
    | nil => exact nofun
    | cons byte rest =>
        intro zero
        exact leading (congrArg some (UInt8.toNat_inj.mp (Option.some.inj zero)))
  have back : (bytes.map UInt8.toNat).map Nat.toUInt8 = bytes := by
    rw [List.map_map]
    exact Eq.trans (List.map_congr_left fun byte _ => UInt8.ofNat_toNat) (List.map_id bytes)
  rw [bytesOf, digitsOf, Radix.value, List.reverse_reverse, Nat.ofDigits_digits,
    Radix.digits_value (by decide) _ (bytes_small bytes) first, back]

theorem head?_bytesOf (digits : List Nat) : (bytesOf digits).head? ≠ some 0 := by
  have first := head?_digits 256 (Radix.value 58 digits)
  rw [← bytesOf_toNat] at first
  intro zero
  rw [List.head?_map, zero] at first
  exact first rfl

theorem encodeBase58_eq (vch : List UInt8) :
    encodeBase58 vch =
      if (vch.takeWhile (· == 0)).length < 2 ^ 31 then
        .ok (List.replicate (vch.takeWhile (· == 0)).length '1' ++
          (digitsOf (vch.dropWhile (· == 0))).map letter)
      else .error .overflow := by
  rw [encodeBase58, skipLeading_eq _ 0 vch (by decide), Nat.zero_add]
  split
  next few =>
    obtain ⟨b58, converted, small, number⟩ := Radix.convert_eq 58 256
      (by decide) ((vch.dropWhile (· == 0)).map UInt8.toNat)
      (List.replicate ((vch.dropWhile (· == 0)).length * 138 / 100 + 1) 0) (bytes_small _)
      (fun digit mem => by rw [List.eq_of_mem_replicate mem]; decide)
      (by
        rw [Radix.value_zeros, Nat.zero_add, Nat.one_mul, List.length_map, List.length_replicate]
        exact encode_room _)
    rw [Radix.value_zeros, Nat.zero_mul, Nat.zero_add] at number
    have digits : b58.dropWhile (· == 0) = digitsOf (vch.dropWhile (· == 0)) := by
      rw [Radix.strip_eq (by decide) b58 small, number, digitsOf]
    simp only [bind, Except.bind, converted, digits, mapM_letter _ (digitsOf_small _)]
    rfl
  next => rfl

def decodeRest (zeroes : Nat) (rest : List Char) : Option (List UInt8) :=
  match (rest.takeWhile (!isspace ·)).mapM strchr with
  | none => none
  | some digits =>
      if (rest.dropWhile (!isspace ·)).dropWhile isspace ≠ [] then none
      else some (List.replicate zeroes 0 ++ bytesOf digits)

theorem decodeBase58_eq (psz : List Char) :
    decodeBase58 psz =
      if ((psz.dropWhile isspace).takeWhile (· == '1')).length < 2 ^ 31 then
        .ok (decodeRest ((psz.dropWhile isspace).takeWhile (· == '1')).length
          ((psz.dropWhile isspace).dropWhile (· == '1')))
      else .error .overflow := by
  rw [decodeBase58, skipLeading_eq _ 0 _ (by decide), Nat.zero_add]
  split
  next few =>
    generalize (psz.dropWhile isspace).dropWhile (· == '1') = rest
    have start : ∀ digit ∈ List.replicate (rest.length * 733 / 1000 + 1) 0, digit < 256 := by
      intro digit mem
      rw [List.eq_of_mem_replicate mem]
      decide
    have room : (Radix.value 256 (List.replicate (rest.length * 733 / 1000 + 1) 0) + 1) *
        58 ^ rest.length ≤ 256 ^ (List.replicate (rest.length * 733 / 1000 + 1) 0).length := by
      rw [Radix.value_zeros, Nat.zero_add, Nat.one_mul, List.length_replicate]
      exact decode_room _
    simp only [bind, Except.bind, decodeRest]
    rcases processChars_eq rest _ start room with
      ⟨digits, final, named, ran, small, number⟩ | ⟨named, ran⟩
    · rw [Radix.value_zeros, Nat.zero_mul, Nat.zero_add] at number
      simp only [named, ran]
      split
      next => rfl
      next => rw [Radix.strip_eq (by decide) final small, number]; rfl
    · simp only [named, ran]
      rfl
  next => rfl

end conversion

section roundTrip

theorem dropWhile_none {A : Type} (p : A → Bool) (xs : List A) (none : ∀ x ∈ xs, p x = false) :
    xs.dropWhile p = xs := by
  cases xs with
  | nil => rfl
  | cons x rest =>
      rw [List.dropWhile_cons_of_neg (by rw [none x List.mem_cons_self]; exact Bool.false_ne_true)]

theorem encoded_not_space (zeroes : Nat) (digits : List Nat) (small : ∀ digit ∈ digits, digit < 58) :
    ∀ c ∈ List.replicate zeroes '1' ++ digits.map letter, isspace c = false := by
  intro c mem
  rcases List.mem_append.mp mem with one | named
  · rw [List.eq_of_mem_replicate one]
    decide
  · obtain ⟨digit, inside, same⟩ := List.mem_map.mp named
    rw [← same, letter_not_space digit (small digit inside)]

theorem head?_letters (digits : List Nat) (small : ∀ digit ∈ digits, digit < 58) :
    (digits.map letter).head? = some '1' ↔ digits.head? = some 0 := by
  cases digits with
  | nil => exact ⟨nofun, nofun⟩
  | cons digit rest =>
      rw [List.map_cons, List.head?_cons, List.head?_cons, Option.some_inj, Option.some_inj]
      refine ⟨letter_injective digit 0 (small digit List.mem_cons_self) (by decide), ?_⟩
      rintro rfl
      decide

theorem decodeRest_letters (zeroes : Nat) (digits : List Nat)
    (small : ∀ digit ∈ digits, digit < 58) :
    decodeRest zeroes (digits.map letter) = some (List.replicate zeroes 0 ++ bytesOf digits) := by
  have plain : ∀ c ∈ digits.map letter, (!isspace c) = true := by
    intro c mem
    rw [encoded_not_space 0 digits small c (List.mem_append_right _ mem)]
    rfl
  rw [decodeRest, List.takeWhile_eq_self_iff.mpr plain, List.dropWhile_eq_nil_iff.mpr plain,
    mapM_strchr digits small]
  rfl

theorem decode_encode (vch : List UInt8) (few : (vch.takeWhile (· == 0)).length < 2 ^ 31) :
    ∃ str, encodeBase58 vch = .ok str ∧ decodeBase58 str = .ok (some vch) := by
  have small := digitsOf_small (vch.dropWhile (· == 0))
  have head : ((digitsOf (vch.dropWhile (· == 0))).map letter).head? ≠ some '1' :=
    fun one => head?_digits 58 _ ((head?_letters _ small).mp one)
  obtain ⟨ones, behind⟩ := takeWhile_leading '1' (vch.takeWhile (· == 0)).length _ head
  refine ⟨_, by rw [encodeBase58_eq, if_pos few], ?_⟩
  rw [decodeBase58_eq, dropWhile_none _ _ (encoded_not_space _ _ small), ones, behind,
    List.length_replicate, if_pos few, decodeRest_letters _ _ small,
    bytesOf_digitsOf _ (head?_left 0 vch), leading_split]

theorem decodeRest_accepts {zeroes : Nat} {rest : List Char} {vch : List UInt8}
    (accepted : decodeRest zeroes rest = some vch) :
    ∃ digits spaces, (∀ digit ∈ digits, digit < 58) ∧ (∀ c ∈ spaces, isspace c = true) ∧
      rest = digits.map letter ++ spaces ∧ vch = List.replicate zeroes 0 ++ bytesOf digits := by
  rw [decodeRest] at accepted
  cases named : (rest.takeWhile (!isspace ·)).mapM strchr with
  | none =>
      rw [named] at accepted
      cases accepted
  | some digits =>
      rw [named] at accepted
      dsimp only at accepted
      split_ifs at accepted with ended
      obtain ⟨small, letters⟩ := letters_of_mapM _ digits named
      refine ⟨digits, rest.dropWhile (!isspace ·), small,
        List.dropWhile_eq_nil_iff.mp (not_not.mp ended), ?_, (Option.some.inj accepted).symm⟩
      rw [letters, List.takeWhile_append_dropWhile]

theorem rdropWhile_spaces (xs spaces : List Char) (plain : ∀ c ∈ xs, isspace c = false)
    (blank : ∀ c ∈ spaces, isspace c = true) : (xs ++ spaces).rdropWhile isspace = xs := by
  rw [List.rdropWhile, List.reverse_append,
    List.dropWhile_append_of_pos fun c mem => blank c (List.mem_reverse.mp mem),
    dropWhile_none _ _ fun c mem => plain c (List.mem_reverse.mp mem), List.reverse_reverse]

theorem encode_decode (psz : List Char) (vch : List UInt8)
    (accepted : decodeBase58 psz = .ok (some vch)) : encodeBase58 vch = .ok (trim psz) := by
  rw [decodeBase58_eq] at accepted
  split_ifs at accepted with few
  obtain ⟨digits, spaces, small, blank, parts, same⟩ :=
    decodeRest_accepts (Except.ok.inj accepted)
  have head : digits.head? ≠ some 0 := by
    intro zero
    apply head?_left '1' (psz.dropWhile isspace)
    rw [parts, List.head?_append, (head?_letters digits small).mpr zero]
    rfl
  obtain ⟨zeros, behind⟩ := takeWhile_leading 0
    ((psz.dropWhile isspace).takeWhile (· == '1')).length (bytesOf digits) (head?_bytesOf digits)
  have whole := leading_split '1' (psz.dropWhile isspace)
  rw [parts, ← List.append_assoc] at whole
  have trimmed : trim psz = List.replicate
      ((psz.dropWhile isspace).takeWhile (· == '1')).length '1' ++ digits.map letter :=
    (congrArg (List.rdropWhile isspace) whole.symm).trans
      (rdropWhile_spaces _ _ (encoded_not_space _ _ small) blank)
  rw [encodeBase58_eq, same, zeros, behind, List.length_replicate, if_pos few,
    digitsOf_bytesOf digits small head, trimmed]

theorem mem_trim {c : Char} {s : List Char} (mem : c ∈ s) (plain : isspace c = false) :
    c ∈ trim s := by
  have kept (xs : List Char) (inside : c ∈ xs) : c ∈ xs.dropWhile isspace := by
    rw [← List.takeWhile_append_dropWhile (p := isspace) (l := xs)] at inside
    rcases List.mem_append.mp inside with front | behind
    · have space := List.mem_takeWhile_imp front
      rw [plain] at space
      cases space
    · exact behind
  rw [trim, List.rdropWhile, List.mem_reverse]
  exact kept _ (List.mem_reverse.mpr (kept s mem))

theorem trim_subset {c : Char} {s : List Char} (mem : c ∈ trim s) : c ∈ s :=
  (List.dropWhile_sublist _).subset ((List.rdropWhile_prefix _ _).subset mem)

theorem decodeString_encode (str : List Char) (vch : List UInt8)
    (accepted : decodeBase58String str = .ok (some vch)) :
    encodeBase58 vch = .ok (trim str) ↔ NUL ∉ str := by
  rw [encode_decode _ vch accepted]
  constructor
  · intro same inside
    have trimmed : NUL ∈ trim (str.takeWhile (· != NUL)) := by
      rw [Except.ok.inj same]
      exact mem_trim inside (by decide)
    have front := List.mem_takeWhile_imp (p := fun c => c != NUL) (trim_subset trimmed)
    rw [bne_self_eq_false] at front
    cases front
  · intro outside
    have whole : ∀ c ∈ str, (c != NUL) = true := by
      intro c mem
      rw [bne_iff_ne]
      rintro rfl
      exact outside mem
    rw [List.takeWhile_eq_self_iff.mpr whole]

/-- Encoding and decoding are inverse as far as the count of leading zeroes fits an int and the
string ends at its terminator, and no carry is ever left. -/
theorem base58_bijection (vch : List UInt8) (str : List Char) :
    ((∃ encoded, encodeBase58 vch = .ok encoded ∧ decodeBase58 encoded = .ok (some vch)) ↔
      (vch.takeWhile (· == 0)).length < 2 ^ 31) ∧
    (decodeBase58 str = .ok (some vch) → encodeBase58 vch = .ok (trim str)) ∧
    (decodeBase58String str = .ok (some vch) →
      (encodeBase58 vch = .ok (trim str) ↔ NUL ∉ str)) ∧
    encodeBase58 vch ≠ .error .assertion ∧ decodeBase58 str ≠ .error .assertion := by
  refine ⟨⟨fun ⟨result, encoded, _⟩ => ?_, decode_encode vch⟩, encode_decode str vch,
    decodeString_encode str vch, fun failed => ?_, fun failed => ?_⟩
  · rw [encodeBase58_eq] at encoded
    split_ifs at encoded with few
    exact few
  · rw [encodeBase58_eq] at failed
    split_ifs at failed
    cases failed
  · rw [decodeBase58_eq] at failed
    split_ifs at failed
    cases failed

/-- 2^31 zero bytes overflow the count, and a terminator inside a string hides what follows. -/
theorem base58_not_bijective :
    (¬ ∃ str, encodeBase58 (List.replicate (2 ^ 31) 0) = .ok str ∧
      decodeBase58 str = .ok (some (List.replicate (2 ^ 31) 0))) ∧
    decodeBase58String ['2', NUL, 'x'] = .ok (some [1]) ∧
    encodeBase58 [1] ≠ .ok (trim ['2', NUL, 'x']) := by
  refine ⟨fun ⟨str, encoded, _⟩ => ?_, by decide, by decide⟩
  have all : (List.replicate (2 ^ 31) (0 : UInt8)).takeWhile (· == 0) =
      List.replicate (2 ^ 31) 0 :=
    List.takeWhile_eq_self_iff.mpr fun byte mem => beq_iff_eq.mpr (List.eq_of_mem_replicate mem)
  rw [encodeBase58_eq, all, List.length_replicate, if_neg (Nat.lt_irrefl _)] at encoded
  cases encoded

end roundTrip

end Base58

end CryptoYen
