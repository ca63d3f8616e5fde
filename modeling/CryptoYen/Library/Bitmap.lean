import Mathlib.Data.List.Basic
import Mathlib.Data.List.Range
import Mathlib.Tactic.Common

set_option autoImplicit false

/-! Flags in bytes, eight to a byte. The bytes behind the last used one are left out, and a reader
that knows how many bytes are not zero finds the end by counting them. -/

namespace Bitmap

def maskByte (flags : Nat → Bool) : UInt8 :=
  (List.range 8).foldl
    (fun chAvail i => if flags i then chAvail ||| 1 <<< UInt8.ofNat i else chAvail) 0

def maskBit (chAvail : UInt8) (p : Nat) : Bool := chAvail &&& (1 <<< UInt8.ofNat p) != 0

def bits (chAvail : UInt8) : List Bool := (List.range 8).map (maskBit chAvail)

private theorem maskByte_table : ∀ a b c d e f g h : Bool,
    bits (maskByte fun i => [a, b, c, d, e, f, g, h].getD i false) = [a, b, c, d, e, f, g, h] := by
  decide +kernel

theorem bits_maskByte (flags : Nat → Bool) : bits (maskByte flags) = (List.range 8).map flags := by
  have byte : maskByte flags = maskByte fun i =>
      [flags 0, flags 1, flags 2, flags 3, flags 4, flags 5, flags 6, flags 7].getD i false := rfl
  rw [byte, maskByte_table]
  rfl

variable (flags : Nat → Bool)

def used (b : Nat) : Bool := (List.range 8).any fun i => flags (8 * b + i)

def byteAt (b : Nat) : UInt8 := maskByte fun i => flags (8 * b + i)

def mask (size : Nat) : List UInt8 := (List.range size).map (byteAt flags)

theorem bits_byteAt (b : Nat) :
    bits (byteAt flags b) = (List.range 8).map fun i => flags (8 * b + i) :=
  bits_maskByte _

theorem byteAt_zero (b : Nat) : byteAt flags b = 0 ↔ used flags b = false := by
  have table : bits (byteAt flags b) = (List.range 8).map fun i => flags (8 * b + i) :=
    bits_byteAt flags b
  have zero : bits 0 = (List.range 8).map fun _ => false := by decide
  constructor
  · intro isZero
    rw [isZero, zero, List.map_inj_left] at table
    rw [used, List.any_eq_false]
    exact fun i member => by simp [← table i member]
  · intro unused
    rw [used, List.any_eq_false] at unused
    have none_set (i : Nat) (inside : i ∈ List.range 8) : flags (8 * b + i) = false := by
      simpa using unused i inside
    have same : byteAt flags b = maskByte fun _ => false := by
      simp only [byteAt, maskByte, List.range_succ, List.range_zero, List.nil_append,
        List.foldl_append, List.foldl_cons, List.foldl_nil]
      simp only [none_set, List.mem_range, Nat.reduceLT]
    rw [same]
    decide

def measure (blocks : Nat) : Nat × Nat :=
  (List.range blocks).foldl
    (fun (nBytes, nNonzeroBytes) b =>
      if used flags b then (b + 1, nNonzeroBytes + 1) else (nBytes, nNonzeroBytes)) (0, 0)

theorem measure_succ (blocks : Nat) :
    measure flags (blocks + 1) =
      if used flags blocks then (blocks + 1, (measure flags blocks).2 + 1)
      else measure flags blocks := by
  rw [measure, List.range_succ, List.foldl_append]
  rfl

structure Measured (blocks nBytes nNonzeroBytes : Nat) : Prop where
  inside : nBytes ≤ blocks
  behind : ∀ b, nBytes ≤ b → b < blocks → used flags b = false
  last : 0 < nBytes → used flags (nBytes - 1) = true
  counted : nNonzeroBytes = (List.range nBytes).countP (used flags)

theorem measure_spec (blocks : Nat) :
    Measured flags blocks (measure flags blocks).1 (measure flags blocks).2 := by
  induction blocks with
  | zero =>
      exact ⟨Nat.le_refl _, fun _ _ below => absurd below (Nat.not_lt_zero _),
        fun positive => absurd positive (Nat.lt_irrefl _), rfl⟩
  | succ blocks ih =>
      have counted := ih.counted
      rw [measure_succ]
      split
      next isUsed =>
        refine ⟨Nat.le_refl _, fun b after below => by omega, fun _ => isUsed, ?_⟩
        -- Between the byte that was last and this one nothing is used.
        obtain ⟨gap, apart⟩ := Nat.exists_eq_add_of_le ih.inside
        have unused : (List.range' (measure flags blocks).1 gap).countP (used flags) = 0 := by
          rw [List.countP_eq_zero]
          intro b member
          rw [List.mem_range'_1] at member
          simp [ih.behind b member.1 (by omega)]
        have split_range : List.range blocks =
            List.range (measure flags blocks).1 ++ List.range' (measure flags blocks).1 gap := by
          have joined : List.range' 0 (measure flags blocks).1 ++
              List.range' (0 + (measure flags blocks).1) gap =
              List.range' 0 ((measure flags blocks).1 + gap) := List.range'_append_1
          rw [Nat.zero_add, ← apart] at joined
          rw [List.range_eq_range', List.range_eq_range', joined]
        rw [List.range_succ, List.countP_append, split_range, List.countP_append, unused,
          ← counted]
        simp [isUsed]
      next unused =>
        refine ⟨Nat.le_succ_of_le ih.inside, ?_, ih.last, counted⟩
        intro b after below
        rcases Nat.lt_succ_iff_lt_or_eq.mp below with earlier | rfl
        · exact ih.behind b after earlier
        · simpa using unused

theorem countP_mask (size : Nat) :
    (mask flags size).countP (fun chAvail => chAvail != 0) =
      (List.range size).countP (used flags) := by
  rw [mask, List.countP_map]
  apply List.countP_congr
  intro b _
  have zero := byteAt_zero flags b
  cases unused : used flags b with
  | false => simp [zero.mpr unused]
  | true =>
      have nonzero : byteAt flags b ≠ 0 := fun isZero => by
        rw [zero.mp isZero] at unused
        cases unused
      simp [nonzero]

theorem flatMap_mask (size : Nat) :
    (mask flags size).flatMap bits = (List.range (8 * size)).map flags := by
  induction size with
  | zero => rfl
  | succ size ih =>
      rw [mask, List.range_succ, List.map_append, List.flatMap_append]
      rw [mask] at ih
      rw [ih, Nat.mul_succ, List.range_add, List.map_append, List.map_map, List.map_singleton,
        List.flatMap_singleton, bits_byteAt]
      rfl

def pack (marks : List Bool) : List UInt8 :=
  mask (fun p => marks.getD p false) ((marks.length + 7) / 8)

theorem pack_length (marks : List Bool) : (pack marks).length = (marks.length + 7) / 8 := by
  simp [pack, mask]

theorem map_getD_range (marks : List Bool) (count : Nat) :
    (List.range (marks.length + count)).map (fun p => marks.getD p false) =
      marks ++ List.replicate count false := by
  apply List.ext_getElem?
  intro p
  rw [List.getElem?_map]
  by_cases inside : p < marks.length
  · rw [List.getElem?_range (by omega), List.getElem?_append_left inside, Option.map_some,
      List.getD_eq_getElem?_getD, List.getElem?_eq_getElem inside]
    rfl
  · rw [List.getElem?_append_right (by omega), List.getElem?_replicate]
    by_cases padded : p < marks.length + count
    · rw [List.getElem?_range padded, Option.map_some, List.getD_eq_getElem?_getD,
        List.getElem?_eq_none (by omega), if_pos (by omega)]
      rfl
    · rw [List.getElem?_eq_none (by simpa using padded), if_neg (by omega)]
      rfl

theorem flatMap_pack (marks : List Bool) :
    ∃ count, 8 * ((marks.length + 7) / 8) = marks.length + count ∧
      (pack marks).flatMap bits = marks ++ List.replicate count false := by
  obtain ⟨count, total⟩ : ∃ count, 8 * ((marks.length + 7) / 8) = marks.length + count :=
    ⟨8 * ((marks.length + 7) / 8) - marks.length, by omega⟩
  refine ⟨count, total, ?_⟩
  rw [pack, flatMap_mask, total, map_getD_range]

section read

variable {E : Type} (endOfData : E)

def readMask : Nat → List UInt8 → Except E (List Bool × List UInt8)
  | 0, bytes => .ok ([], bytes)
  | _ + 1, [] => .error endOfData
  | nMaskCode + 1, chAvail :: bytes => do
      let (vAvail, rest) ← readMask (if chAvail != 0 then nMaskCode else nMaskCode + 1) bytes
      return (bits chAvail ++ vAvail, rest)

theorem readMask_bytes (bytes rest : List UInt8)
    (ends : ∀ chAvail, bytes.getLast? = some chAvail → chAvail ≠ 0) :
    readMask endOfData (bytes.countP fun chAvail => chAvail != 0) (bytes ++ rest) =
      .ok (bytes.flatMap bits, rest) := by
  induction bytes with
  | nil => simp [readMask]
  | cons chAvail bytes ih =>
      by_cases zero : chAvail = 0
      · cases bytes with
        | nil => exact absurd zero (ends chAvail rfl)
        | cons next bytes =>
            have later := ih fun other found => ends other (by simpa using found)
            obtain ⟨count, positive⟩ : ∃ count,
                (next :: bytes).countP (fun chAvail => chAvail != 0) = count + 1 := by
              apply Nat.exists_eq_add_one.mpr
              rw [List.countP_pos_iff]
              refine ⟨(next :: bytes).getLast (by simp), List.getLast_mem _, ?_⟩
              have last := ends ((next :: bytes).getLast (by simp))
                (by rw [List.getLast?_cons_cons, List.getLast?_eq_getLast_of_ne_nil])
              simpa using last
            rw [positive] at later
            have counted : (chAvail :: next :: bytes).countP (fun chAvail => chAvail != 0) =
                count + 1 := by
              rw [List.countP_cons_of_neg (by simp [zero]), positive]
            rw [counted, List.cons_append, readMask, if_neg (by simp [zero]), later]
            rfl
      · have later : readMask endOfData (bytes.countP fun chAvail => chAvail != 0)
            (bytes ++ rest) = .ok (bytes.flatMap bits, rest) := by
          cases bytes with
          | nil => simp [readMask]
          | cons next bytes => exact ih fun other found => ends other (by simpa using found)
        rw [List.countP_cons_of_pos (by simp [zero]), List.cons_append, readMask,
          if_pos (by simp [zero]), later]
        rfl

theorem readMask_mask (blocks : Nat) (rest : List UInt8) :
    readMask endOfData (measure flags blocks).2 (mask flags (measure flags blocks).1 ++ rest) =
      .ok ((List.range (8 * (measure flags blocks).1)).map flags, rest) := by
  have spec := measure_spec flags blocks
  rw [spec.counted, ← countP_mask, readMask_bytes, flatMap_mask]
  intro chAvail found
  rw [mask, List.getLast?_map, List.getLast?_range] at found
  split at found
  next => cases found
  next nonzero =>
    have isUsed := spec.last (Nat.pos_of_ne_zero nonzero)
    rw [Option.map_some, Option.some.injEq] at found
    rw [← found, ne_eq, byteAt_zero, isUsed]
    decide

end read

end Bitmap
