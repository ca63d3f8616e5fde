import CryptoYen.Library.Cells
import CryptoYen.Library.Limbs

set_option autoImplicit false

namespace CryptoYen

abbrev Words (WIDTH : Nat) := Vector (BitVec 32) WIDTH

namespace Words

open Cells

variable {WIDTH : Nat}

def toNat (a : Words WIDTH) : Nat := Limbs.value a.toList

section operators

variable (a b : Words WIDTH)

def assign (value : BitVec 64) : Option (Words WIDTH) := do
  let pn ← write a 0 (value.setWidth 32)
  let pn ← write pn 1 ((value >>> 32).setWidth 32)
  loop (fun i pn => write pn i 0) 2 (WIDTH - 2) pn

def addBody (i : Nat) : Nat × Words WIDTH → Option (Nat × Words WIDTH) := fun (carry, pn) => do
  let n := Limbs.wide 32 (carry + (← read pn i).toNat + (← read b i).toNat)
  return (Limbs.carried 32 n, ← write pn i (Limbs.digit n))

def addAssign : Option (Words WIDTH) := (loop (addBody b) 0 WIDTH (0, a)).map Prod.snd

def incrementFrom : Nat → Nat → Words WIDTH → Option (Words WIDTH)
  | _, 0, pn => some pn
  | i, count + 1, pn => do
      let word := (← read pn i) + 1
      let pn ← write pn i word
      if word = 0 ∧ i < WIDTH - 1 then incrementFrom (i + 1) count pn else some pn

def increment : Option (Words WIDTH) := incrementFrom 0 WIDTH a

def complement : Option (Words WIDTH) :=
  loop (fun i ret => do write ret i (~~~(← read a i))) 0 WIDTH (Vector.replicate WIDTH 0)

def negate : Option (Words WIDTH) := do increment (← complement a)

def subAssign : Option (Words WIDTH) := do addAssign a (← negate b)

def mulWordBody (b32 : BitVec 32) (i : Nat) :
    Nat × Words WIDTH → Option (Nat × Words WIDTH) := fun (carry, pn) => do
  let n := Limbs.wide 32 (carry + b32.toNat * (← read pn i).toNat)
  return (Limbs.carried 32 n, ← write pn i (Limbs.digit n))

def mulWordAssign (b32 : BitVec 32) : Option (Words WIDTH) :=
  (loop (mulWordBody b32) 0 WIDTH (0, a)).map Prod.snd

def mulRowBody (j i : Nat) : Nat × Words WIDTH → Option (Nat × Words WIDTH) :=
  fun (carry, pn) => do
    let n := Limbs.wide 32
      (carry + (← read pn (i + j)).toNat + (← read a j).toNat * (← read b i).toNat)
    return (Limbs.carried 32 n, ← write pn (i + j) (Limbs.digit n))

def mulAssign : Option (Words WIDTH) := do
  let pn ← assign a 0
  loop (fun j pn => (loop (mulRowBody a b j) 0 (WIDTH - j) (0, pn)).map Prod.snd) 0 WIDTH pn

def clear : Option (Words WIDTH) := loop (fun i pn => write pn i 0) 0 WIDTH a

-- What a word hands to another one; none is an access out of range.
def orFrom (word : BitVec 32 → BitVec 32) (i target : Nat) (pn : Words WIDTH) : Option (Words WIDTH) :=
  (read a i).bind fun source => update (· ||| word source) target pn

def shiftLeftBody (k shift i : Nat) (pn : Words WIDTH) : Option (Words WIDTH) :=
  (if i + k + 1 < WIDTH ∧ shift ≠ 0 then orFrom a (· >>> (32 - shift)) i (i + k + 1) pn
    else some pn).bind fun pn =>
    if i + k < WIDTH then orFrom a (· <<< shift) i (i + k) pn else some pn

def shiftLeftAssign (shift : Nat) : Option (Words WIDTH) := do
  loop (shiftLeftBody a (shift / 32) (shift % 32)) 0 WIDTH (← clear a)

def shiftRightBody (k shift i : Nat) (pn : Words WIDTH) : Option (Words WIDTH) :=
  (if k + 1 ≤ i ∧ shift ≠ 0 then orFrom a (· <<< (32 - shift)) i (i - k - 1) pn
    else some pn).bind fun pn =>
    if k ≤ i then orFrom a (· >>> shift) i (i - k) pn else some pn

def shiftRightAssign (shift : Nat) : Option (Words WIDTH) := do
  loop (shiftRightBody a (shift / 32) (shift % 32)) 0 WIDTH (← clear a)

def compareBelow : Nat → Option Ordering
  | 0 => some .eq
  | i + 1 => do
      let left ← read a i
      let right ← read b i
      if left < right then some .lt
      else if right < left then some .gt
      else compareBelow i

def compareTo : Option Ordering := compareBelow a b WIDTH

def equal : Bool := a.toList == b.toList

def bitsBelow : Nat → Option Nat
  | 0 => some 0
  | pos + 1 => do
      let word ← read a pos
      if word ≠ 0 then some (32 * pos + Limbs.topBit word 31) else bitsBelow pos

def bits : Option Nat := bitsBelow a WIDTH

def divideFrom : Nat → Words WIDTH → Words WIDTH → Words WIDTH → Option (Words WIDTH)
  | 0, _, _, pn => some pn
  | shift + 1, num, div, pn => do
      let (num, pn) ←
        if (← compareTo num div).isGE then do
          let num ← subAssign num div
          let pn ← update (· ||| (1 : BitVec 32) <<< (shift % 32)) (shift / 32) pn
          some (num, pn)
        else some (num, pn)
      let div ← shiftRightAssign div 1
      divideFrom shift num div pn

/-- operator/=; the inner none is the exception thrown on a division by zero. -/
def divideAssign : Option (Option (Words WIDTH)) := do
  let div := b
  let num := a
  let pn ← assign a 0
  let num_bits ← bits num
  let div_bits ← bits div
  if div_bits = 0 then some none
  else if num_bits < div_bits then some (some pn)
  else do
    let shift := num_bits - div_bits
    let div ← shiftLeftAssign div shift
    (divideFrom (shift + 1) num div pn).map some

end operators

end Words

end CryptoYen
