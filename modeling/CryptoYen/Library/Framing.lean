import Mathlib.Data.List.Basic
import Mathlib.Tactic.Common

set_option autoImplicit false

structure Framing (α H : Type) where
  headerSize : Nat
  positive : 0 < headerSize
  -- None is a header that is refused.
  read : List α → Option H
  size : H → Nat

namespace Framing

variable {α H : Type}

inductive Pending (α H : Type)
  | header (bytes : List α)
  | body (header : H) (bytes : List α)
  deriving DecidableEq, Repr

structure Received (α H : Type) where
  frames : List (H × List α)
  pending : Pending α H

def start : Received α H := ⟨[], .header []⟩

variable (f : Framing α H)

def settle (frames : List (H × List α)) (header : H) (bytes : List α) : Received α H :=
  if bytes.length = f.size header then ⟨frames ++ [(header, bytes)], .header []⟩
  else ⟨frames, .body header bytes⟩

def absorb (r : Received α H) (byte : α) : Option (Received α H) :=
  match r.pending with
  | .header bytes =>
      if bytes.length + 1 < f.headerSize then some ⟨r.frames, .header (bytes ++ [byte])⟩
      else (f.read (bytes ++ [byte])).map fun header => f.settle r.frames header []
  | .body header bytes => some (f.settle r.frames header (bytes ++ [byte]))

def absorbAll (r : Received α H) (bytes : List α) : Option (Received α H) := bytes.foldlM f.absorb r

@[simp] theorem absorbAll_nil (r : Received α H) : f.absorbAll r [] = some r := rfl

theorem absorbAll_append (r : Received α H) (first second : List α) :
    f.absorbAll r (first ++ second) = (f.absorbAll r first).bind fun mid => f.absorbAll mid second :=
  List.foldlM_append

/-- What is in when the bytes end or a header is refused. -/
def accepted (r : Received α H) : List α → Received α H
  | [] => r
  | byte :: bytes =>
      match f.absorb r byte with
      | none => r
      | some next => accepted next bytes

theorem accepted_append (r mid : Received α H) (first second : List α)
    (taken : f.absorbAll r first = some mid) :
    f.accepted r (first ++ second) = f.accepted mid second := by
  induction first generalizing r with
  | nil =>
      cases taken
      rfl
  | cons byte first ih =>
      rw [absorbAll, List.foldlM_cons] at taken
      obtain ⟨next, one, rest⟩ := Option.bind_eq_some_iff.mp taken
      rw [List.cons_append, accepted, one]
      exact ih next rest

theorem accepted_refused (r : Received α H) (first second : List α)
    (refused : f.absorbAll r first = none) : f.accepted r (first ++ second) = f.accepted r first := by
  induction first generalizing r with
  | nil => cases refused
  | cons byte first ih =>
      rw [absorbAll, List.foldlM_cons] at refused
      rw [List.cons_append, accepted, accepted]
      cases one : f.absorb r byte with
      | none => rfl
      | some next =>
          rw [one] at refused
          exact ih next refused

section pieces

variable (frames : List (H × List α))

theorem absorbAll_header (bytes piece : List α) (short : bytes.length + piece.length < f.headerSize) :
    f.absorbAll ⟨frames, .header bytes⟩ piece = some ⟨frames, .header (bytes ++ piece)⟩ := by
  induction piece generalizing bytes with
  | nil => rw [absorbAll_nil, List.append_nil]
  | cons byte piece ih =>
      rw [List.length_cons] at short
      have one : f.absorb ⟨frames, .header bytes⟩ byte = some ⟨frames, .header (bytes ++ [byte])⟩ :=
        if_pos (by omega)
      have rest := ih (bytes ++ [byte]) (by simp only [List.length_append, List.length_singleton]; omega)
      rw [List.append_assoc, List.singleton_append] at rest
      rw [absorbAll, List.foldlM_cons, one]
      exact rest

theorem absorbAll_header_end (bytes piece : List α) (some_byte : piece ≠ [])
    (whole : bytes.length + piece.length = f.headerSize) :
    f.absorbAll ⟨frames, .header bytes⟩ piece =
      (f.read (bytes ++ piece)).map fun header => f.settle frames header [] := by
  obtain ⟨init, last, rfl⟩ := List.eq_nil_or_concat' piece |>.resolve_left some_byte
  rw [List.length_append, List.length_singleton] at whole
  have before := f.absorbAll_header frames bytes init (by omega)
  have full : ¬ (bytes ++ init).length + 1 < f.headerSize := by
    rw [List.length_append]
    omega
  rw [absorbAll_append, before, Option.bind_some, absorbAll, List.foldlM_cons, absorb]
  dsimp only
  rw [if_neg full, List.append_assoc]
  cases f.read (bytes ++ (init ++ [last])) with
  | none => rfl
  | some header => rfl

theorem accepted_header_end (bytes piece : List α)
    (whole : bytes.length + piece.length = f.headerSize)
    (refused : f.absorbAll ⟨frames, .header bytes⟩ piece = none) :
    (f.accepted ⟨frames, .header bytes⟩ piece).frames = frames := by
  rcases List.eq_nil_or_concat' piece with rfl | ⟨init, last, rfl⟩
  · cases refused
  · rw [List.length_append, List.length_singleton] at whole
    have before := f.absorbAll_header frames bytes init (by omega)
    rw [absorbAll_append, before, Option.bind_some, absorbAll, List.foldlM_cons] at refused
    rw [f.accepted_append _ _ init [last] before, accepted]
    cases one : f.absorb ⟨frames, .header (bytes ++ init)⟩ last with
    | none => rfl
    | some next =>
        rw [one] at refused
        cases refused

theorem absorbAll_body (header : H) (bytes piece : List α)
    (short : bytes.length + piece.length < f.size header) :
    f.absorbAll ⟨frames, .body header bytes⟩ piece = some ⟨frames, .body header (bytes ++ piece)⟩ := by
  induction piece generalizing bytes with
  | nil => rw [absorbAll_nil, List.append_nil]
  | cons byte piece ih =>
      rw [List.length_cons] at short
      have one : f.absorb ⟨frames, .body header bytes⟩ byte =
          some ⟨frames, .body header (bytes ++ [byte])⟩ :=
        congrArg some (if_neg (by simp only [List.length_append, List.length_singleton]; omega))
      have rest := ih (bytes ++ [byte]) (by simp only [List.length_append, List.length_singleton]; omega)
      rw [List.append_assoc, List.singleton_append] at rest
      rw [absorbAll, List.foldlM_cons, one]
      exact rest

theorem absorbAll_body_end (header : H) (bytes piece : List α) (some_byte : piece ≠ [])
    (whole : bytes.length + piece.length = f.size header) :
    f.absorbAll ⟨frames, .body header bytes⟩ piece =
      some ⟨frames ++ [(header, bytes ++ piece)], .header []⟩ := by
  obtain ⟨init, last, rfl⟩ := List.eq_nil_or_concat' piece |>.resolve_left some_byte
  rw [List.length_append, List.length_singleton] at whole
  have before := f.absorbAll_body frames header bytes init (by omega)
  have full : (bytes ++ init ++ [last]).length = f.size header := by
    simp only [List.length_append, List.length_singleton]
    omega
  rw [absorbAll_append, before, Option.bind_some, absorbAll, List.foldlM_cons, absorb]
  dsimp only
  rw [settle, if_pos full, List.append_assoc]
  rfl

end pieces

section streams

variable (write : H → List α)

structure Good (frame : H × List α) : Prop where
  length : (write frame.1).length = f.headerSize
  reads : f.read (write frame.1) = some frame.1
  body : frame.2.length = f.size frame.1

def stream (frames : List (H × List α)) : List α :=
  frames.flatMap fun frame => write frame.1 ++ frame.2

variable {f write}

theorem absorbAll_frame (frames : List (H × List α)) (frame : H × List α) (good : f.Good write frame) :
    f.absorbAll ⟨frames, .header []⟩ (write frame.1 ++ frame.2) =
      some ⟨frames ++ [frame], .header []⟩ := by
  have some_byte : write frame.1 ≠ [] := by
    rw [← List.length_pos_iff, good.length]
    exact f.positive
  rw [absorbAll_append, f.absorbAll_header_end frames [] _ some_byte (by simp [good.length]),
    List.nil_append, good.reads, Option.map_some, Option.bind_some, settle]
  by_cases empty : frame.2 = []
  · have none : ([] : List α).length = f.size frame.1 := by rw [← good.body, empty]
    rw [if_pos none, empty, absorbAll_nil, ← empty]
  · have more : ¬ ([] : List α).length = f.size frame.1 := by
      rw [← good.body]
      exact fun none => empty (List.eq_nil_of_length_eq_zero none.symm)
    rw [if_neg more, f.absorbAll_body_end frames frame.1 [] _ empty (by simp [good.body]),
      List.nil_append]

theorem absorbAll_stream (before frames : List (H × List α))
    (good : ∀ frame ∈ frames, f.Good write frame) :
    f.absorbAll ⟨before, .header []⟩ (stream write frames) = some ⟨before ++ frames, .header []⟩ := by
  induction frames generalizing before with
  | nil => rw [stream, List.flatMap_nil, absorbAll_nil, List.append_nil]
  | cons frame frames ih =>
      obtain ⟨here, later⟩ := List.forall_mem_cons.mp good
      rw [stream, List.flatMap_cons, absorbAll_append, absorbAll_frame before frame here,
        Option.bind_some]
      refine (ih (before ++ [frame]) later).trans ?_
      rw [List.append_assoc, List.singleton_append]

end streams

theorem absorb_frames (r next : Received α H) (byte : α) (taken : f.absorb r byte = some next) :
    r.frames <+: next.frames := by
  have settles (header : H) (bytes : List α) : r.frames <+: (f.settle r.frames header bytes).frames := by
    rw [settle]
    split
    · exact List.prefix_append _ _
    · exact List.prefix_rfl
  rw [absorb] at taken
  split at taken
  next bytes here =>
    split at taken
    · cases taken
      exact List.prefix_rfl
    · obtain ⟨header, _, rfl⟩ := Option.map_eq_some_iff.mp taken
      exact settles header []
  next header bytes here =>
    cases taken
    exact settles header _

theorem absorbAll_frames (r final : Received α H) (bytes : List α)
    (taken : f.absorbAll r bytes = some final) : r.frames <+: final.frames := by
  induction bytes generalizing r with
  | nil =>
      cases taken
      exact List.prefix_rfl
  | cons byte bytes ih =>
      rw [absorbAll, List.foldlM_cons] at taken
      obtain ⟨next, one, rest⟩ := Option.bind_eq_some_iff.mp taken
      exact (f.absorb_frames r next byte one).trans (ih next rest)

section conservation

variable (write : H → List α)

def pendingBytes : Pending α H → List α
  | .header bytes => bytes
  | .body header bytes => write header ++ bytes

def Received.bytes (r : Received α H) : List α := stream write r.frames ++ pendingBytes write r.pending

def Open (r : Received α H) : Prop := ∀ bytes, r.pending = .header bytes → bytes.length < f.headerSize

theorem settle_bytes (frames : List (H × List α)) (header : H) (bytes : List α) :
    (f.settle frames header bytes).bytes write = stream write frames ++ (write header ++ bytes) ∧
      f.Open (f.settle frames header bytes) := by
  rw [settle]
  split
  · refine ⟨?_, fun other same => ?_⟩
    · rw [Received.bytes, pendingBytes, stream, List.flatMap_append, List.flatMap_singleton,
        List.append_nil]
      rfl
    · cases same
      exact f.positive
  · refine ⟨rfl, fun other same => ?_⟩
    cases same

variable {write} (inverse : ∀ bytes header, bytes.length = f.headerSize → f.read bytes = some header →
  write header = bytes)

include inverse

theorem absorb_bytes (r next : Received α H) (byte : α) (is_open : f.Open r)
    (taken : f.absorb r byte = some next) :
    next.bytes write = r.bytes write ++ [byte] ∧ f.Open next := by
  obtain ⟨frames, pending⟩ := r
  rw [absorb] at taken
  cases pending with
  | header bytes =>
      have short := is_open bytes rfl
      dsimp only at taken
      by_cases more : bytes.length + 1 < f.headerSize
      · rw [if_pos more] at taken
        cases taken
        refine ⟨?_, fun other same => ?_⟩
        · rw [Received.bytes, Received.bytes, pendingBytes, pendingBytes, List.append_assoc]
        · cases same
          rwa [List.length_append, List.length_singleton]
      · rw [if_neg more] at taken
        obtain ⟨header, read, rfl⟩ := Option.map_eq_some_iff.mp taken
        have back := inverse _ header
          (by rw [List.length_append, List.length_singleton]; omega) read
        obtain ⟨same, goes⟩ := f.settle_bytes write frames header []
        refine ⟨?_, goes⟩
        rw [same, back, List.append_nil, Received.bytes, pendingBytes, List.append_assoc]
  | body header bytes =>
      cases taken
      obtain ⟨same, goes⟩ := f.settle_bytes write frames header (bytes ++ [byte])
      refine ⟨?_, goes⟩
      rw [same, Received.bytes, pendingBytes]
      simp only [List.append_assoc]

theorem absorbAll_bytes (bytes : List α) (r : Received α H) (taken : f.absorbAll start bytes = some r) :
    r.bytes write = bytes := by
  have kept (bytes : List α) (s : Received α H) (is_open : f.Open s)
      (taken : f.absorbAll s bytes = some r) : r.bytes write = s.bytes write ++ bytes := by
    induction bytes generalizing s with
    | nil =>
        cases taken
        rw [List.append_nil]
    | cons byte bytes ih =>
        rw [absorbAll, List.foldlM_cons] at taken
        obtain ⟨next, one, rest⟩ := Option.bind_eq_some_iff.mp taken
        obtain ⟨same, goes⟩ := f.absorb_bytes inverse s next byte is_open one
        rw [ih next goes rest, same, List.append_assoc, List.singleton_append]
  refine kept bytes start (fun other same => ?_) taken
  cases same
  exact f.positive

end conservation

theorem absorbAll_behind (prior frames : List (H × List α)) (pending : Pending α H) (bytes : List α) :
    f.absorbAll ⟨prior ++ frames, pending⟩ bytes =
      (f.absorbAll ⟨frames, pending⟩ bytes).map fun r => ⟨prior ++ r.frames, r.pending⟩ := by
  have settles (frames : List (H × List α)) (header : H) (bytes : List α) :
      f.settle (prior ++ frames) header bytes =
        ⟨prior ++ (f.settle frames header bytes).frames, (f.settle frames header bytes).pending⟩ := by
    rw [settle, settle]
    split
    · rw [List.append_assoc]
    · rfl
  have one (frames : List (H × List α)) (pending : Pending α H) (byte : α) :
      f.absorb ⟨prior ++ frames, pending⟩ byte =
        (f.absorb ⟨frames, pending⟩ byte).map fun r => ⟨prior ++ r.frames, r.pending⟩ := by
    cases pending with
    | header bytes =>
        simp only [absorb]
        split
        · rfl
        · rw [Option.map_map]
          exact congrArg (Option.map · _) (funext fun header => settles frames header [])
    | body header bytes => exact congrArg some (settles frames header _)
  induction bytes generalizing frames pending with
  | nil => rfl
  | cons byte bytes ih =>
      rw [absorbAll, absorbAll, List.foldlM_cons, List.foldlM_cons, one]
      cases f.absorb ⟨frames, pending⟩ byte with
      | none => rfl
      | some next => exact ih next.frames next.pending

variable {f}

theorem absorbAll_part {write : H → List α} (frames : List (H × List α))
    (good : ∀ frame ∈ frames, f.Good write frame) (part rest : List α)
    (split : part ++ rest = stream write frames) :
    ∃ r, f.absorbAll start part = some r ∧ r.frames <+: frames ∧
      (rest = [] → r = ⟨frames, .header []⟩) := by
  have whole := absorbAll_stream [] frames good
  rw [← split, absorbAll_append, List.nil_append] at whole
  obtain ⟨r, taken, later⟩ := Option.bind_eq_some_iff.mp whole
  refine ⟨r, taken, f.absorbAll_frames r _ rest later, fun empty => ?_⟩
  rw [empty, absorbAll_nil] at later
  exact Option.some.inj later

end Framing
