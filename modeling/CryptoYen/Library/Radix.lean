import Mathlib.Data.Nat.Digits.Lemmas

set_option autoImplicit false

/-! Numbers that are moved from one base to another, digit by digit and in a buffer of a fixed
length. The highest digit stands in front. -/

namespace Radix

def value (base : Nat) (digits : List Nat) : Nat := Nat.ofDigits base digits.reverse

def mulAddFrom (base factor : Nat) : Nat → List Nat → List Nat × Nat
  | carry, [] => ([], carry)
  | carry, digit :: rest =>
      let carry := carry + factor * digit
      let (high, left) := mulAddFrom base factor (carry / base) rest
      (carry % base :: high, left)

/-- In place; none when a carry is left. -/
def mulAdd (base factor carry : Nat) (buffer : List Nat) : Option (List Nat) :=
  let (digits, left) := mulAddFrom base factor carry buffer.reverse
  if left = 0 then some digits.reverse else none

def convert (base factor : Nat) : List Nat → List Nat → Option (List Nat)
  | buffer, [] => some buffer
  | buffer, digit :: rest =>
      (mulAdd base factor digit buffer).bind fun next => convert base factor next rest

section values

variable {base factor : Nat}

theorem value_cons (digit : Nat) (rest : List Nat) :
    value base (digit :: rest) = digit * base ^ rest.length + value base rest := by
  rw [value, List.reverse_cons, Nat.ofDigits_append, Nat.ofDigits_singleton, List.length_reverse,
    value, Nat.mul_comm, Nat.add_comm]

theorem value_lt (digits : List Nat) (small : ∀ digit ∈ digits, digit < base) :
    value base digits < base ^ digits.length := by
  induction digits with
  | nil => exact Nat.one_pos
  | cons digit rest ih =>
      have low := ih fun other mem => small other (List.mem_cons_of_mem _ mem)
      have high := Nat.mul_le_mul_right (base ^ rest.length) (small digit List.mem_cons_self)
      rw [Nat.succ_mul] at high
      rw [value_cons, List.length_cons, Nat.pow_succ, Nat.mul_comm (base ^ rest.length)]
      omega

theorem value_zeros (size : Nat) : value base (List.replicate size 0) = 0 := by
  induction size with
  | zero => rfl
  | succ size ih => rw [List.replicate_succ, value_cons, ih, Nat.zero_mul]

theorem value_strip (digits : List Nat) :
    value base (digits.dropWhile (· == 0)) = value base digits := by
  induction digits with
  | nil => rfl
  | cons digit rest ih =>
      rw [List.dropWhile_cons]
      split
      next zero => rw [ih, value_cons, eq_of_beq zero, Nat.zero_mul, Nat.zero_add]
      next => rfl

theorem digits_value (many : 1 < base) (digits : List Nat) (small : ∀ digit ∈ digits, digit < base)
    (leading : digits.head? ≠ some 0) :
    (Nat.digits base (value base digits)).reverse = digits := by
  rw [value, Nat.digits_ofDigits base many, List.reverse_reverse]
  · exact fun digit mem => small digit (List.mem_reverse.mp mem)
  · intro nonempty zero
    rw [List.getLast_reverse] at zero
    exact leading (by rw [List.head?_eq_some_head (by simpa using nonempty), zero])

theorem head?_strip (digits : List Nat) : (digits.dropWhile (· == 0)).head? ≠ some 0 := by
  intro zero
  have nonzero := List.head?_dropWhile_not (· == 0) digits
  rw [zero] at nonzero
  cases nonzero

theorem strip_eq (many : 1 < base) (digits : List Nat) (small : ∀ digit ∈ digits, digit < base) :
    digits.dropWhile (· == 0) = (Nat.digits base (value base digits)).reverse := by
  rw [← value_strip]
  exact (digits_value many _ (fun digit mem => small digit ((List.dropWhile_sublist _).subset mem))
    (head?_strip digits)).symm

end values

section conversion

variable (base factor : Nat)

theorem mulAddFrom_value (carry : Nat) (digits : List Nat) :
    (mulAddFrom base factor carry digits).1.length = digits.length ∧
      Nat.ofDigits base (mulAddFrom base factor carry digits).1 +
          base ^ digits.length * (mulAddFrom base factor carry digits).2 =
        carry + factor * Nat.ofDigits base digits := by
  induction digits generalizing carry with
  | nil => simp [mulAddFrom]
  | cons digit rest ih =>
      obtain ⟨length, sum⟩ := ih ((carry + factor * digit) / base)
      have split := Nat.mod_add_div (carry + factor * digit) base
      rw [mulAddFrom]
      dsimp only
      refine ⟨by rw [List.length_cons, length, List.length_cons], ?_⟩
      rw [Nat.ofDigits_cons, Nat.ofDigits_cons, List.length_cons, Nat.pow_succ]
      calc (carry + factor * digit) % base +
              base * Nat.ofDigits base (mulAddFrom base factor ((carry + factor * digit) / base) rest).1 +
              base ^ rest.length * base *
                (mulAddFrom base factor ((carry + factor * digit) / base) rest).2
          = (carry + factor * digit) % base +
              base * (Nat.ofDigits base
                  (mulAddFrom base factor ((carry + factor * digit) / base) rest).1 +
                base ^ rest.length *
                  (mulAddFrom base factor ((carry + factor * digit) / base) rest).2) := by ring
        _ = (carry + factor * digit) % base + base * ((carry + factor * digit) / base) +
              base * (factor * Nat.ofDigits base rest) := by rw [sum]; ring
        _ = carry + factor * (digit + base * Nat.ofDigits base rest) := by rw [split]; ring

theorem mulAddFrom_small (positive : 0 < base) (carry : Nat) (digits : List Nat) :
    ∀ digit ∈ (mulAddFrom base factor carry digits).1, digit < base := by
  induction digits generalizing carry with
  | nil => exact fun digit mem => absurd mem List.not_mem_nil
  | cons digit rest ih =>
      rw [mulAddFrom]
      dsimp only
      intro other mem
      rcases List.mem_cons.mp mem with here | later
      · rw [here]
        exact Nat.mod_lt _ positive
      · exact ih _ other later

theorem mulAdd_eq (positive : 0 < base) (carry : Nat) (buffer : List Nat)
    (room : carry + factor * value base buffer < base ^ buffer.length) :
    ∃ next, mulAdd base factor carry buffer = some next ∧ next.length = buffer.length ∧
      (∀ digit ∈ next, digit < base) ∧ value base next = carry + factor * value base buffer := by
  obtain ⟨length, sum⟩ := mulAddFrom_value base factor carry buffer.reverse
  have small := mulAddFrom_small base factor positive carry buffer.reverse
  rw [List.length_reverse] at length sum
  have none_left : (mulAddFrom base factor carry buffer.reverse).2 = 0 := by
    by_contra left
    have more := Nat.mul_le_mul_left (base ^ buffer.length) (Nat.one_le_iff_ne_zero.mpr left)
    rw [value] at room
    omega
  rw [none_left, Nat.mul_zero, Nat.add_zero] at sum
  refine ⟨_, by rw [mulAdd]; exact if_pos none_left, ?_, ?_, ?_⟩
  · rw [List.length_reverse, length]
  · exact fun digit mem => small digit (List.mem_reverse.mp mem)
  · rw [value, List.reverse_reverse, sum, value]

theorem room_step (base factor size number digit count : Nat) (small : digit < factor)
    (room : (number + 1) * factor ^ (count + 1) ≤ base ^ size) :
    (digit + factor * number + 1) * factor ^ count ≤ base ^ size := by
  have step : digit + factor * number + 1 ≤ (number + 1) * factor := by
    rw [Nat.succ_mul, Nat.mul_comm]
    omega
  calc (digit + factor * number + 1) * factor ^ count
      ≤ (number + 1) * factor * factor ^ count := Nat.mul_le_mul_right _ step
    _ = (number + 1) * factor ^ (count + 1) := by rw [Nat.pow_succ]; ring
    _ ≤ base ^ size := room

theorem room_lt (base factor size number digit count : Nat) (small : digit < factor)
    (room : (number + 1) * factor ^ (count + 1) ≤ base ^ size) :
    digit + factor * number < base ^ size := by
  have step := room_step base factor size number digit count small room
  have positive : 1 ≤ factor ^ count := Nat.one_le_pow _ _ (by omega)
  have least := Nat.mul_le_mul_left (digit + factor * number + 1) positive
  omega

theorem convert_eq (positive : 0 < base) (input buffer : List Nat)
    (digits : ∀ digit ∈ input, digit < factor) (cells : ∀ digit ∈ buffer, digit < base)
    (room : (value base buffer + 1) * factor ^ input.length ≤ base ^ buffer.length) :
    ∃ final, convert base factor buffer input = some final ∧ (∀ digit ∈ final, digit < base) ∧
      value base final = value base buffer * factor ^ input.length + value factor input := by
  induction input generalizing buffer with
  | nil => exact ⟨buffer, rfl, cells, by simp [value]⟩
  | cons digit rest ih =>
      have small := digits digit List.mem_cons_self
      rw [List.length_cons] at room
      obtain ⟨next, done, length, inside, number⟩ := mulAdd_eq base factor positive digit buffer
        (room_lt base factor _ _ digit rest.length small room)
      have further := room_step base factor _ _ digit rest.length small room
      rw [← number, ← length] at further
      obtain ⟨final, ran, below, sum⟩ := ih next
        (fun other mem => digits other (List.mem_cons_of_mem _ mem)) inside further
      refine ⟨final, by rw [convert, done, Option.bind_some, ran], below, ?_⟩
      rw [sum, number, value_cons, List.length_cons, Nat.pow_succ]
      ring

end conversion

end Radix
