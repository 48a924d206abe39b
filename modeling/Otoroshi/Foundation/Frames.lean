/-
# Frames of a stream

A stream is cut at a separator, which belongs to no frame. What stands after the last
separator is a frame too, unless nothing does. A frame that is too long fails the stream.
-/

import Mathlib.Data.List.Basic

namespace Otoroshi

namespace Framing

variable {α : Type} [DecidableEq α] (separator : α)

/-- The frames of the rest of a stream, after the beginning of a frame. -/
def framesFrom : List α → List α → List (List α)
  | current, [] => if current.isEmpty then [] else [current]
  | current, a :: rest =>
      if a = separator then current :: framesFrom [] rest else framesFrom (current ++ [a]) rest

/-- `Framing.delimiter`, which takes a last frame without separator. -/
def delimiter (maximumFrameLength : Nat) (stream : List α) : Option (List (List α)) :=
  let frames := framesFrom separator [] stream
  if frames.all fun frame => frame.length ≤ maximumFrameLength then some frames else none

/-- The frames as a stream, each with a separator behind it. -/
def join (frames : List (List α)) : List α := frames.flatMap (· ++ [separator])

variable {separator}

theorem framesFrom_append {line : List α} (hline : separator ∉ line) (current rest : List α) :
    framesFrom separator current (line ++ separator :: rest) =
      (current ++ line) :: framesFrom separator [] rest := by
  induction line generalizing current with
  | nil => simp [framesFrom]
  | cons a line ih =>
      rw [List.mem_cons, not_or] at hline
      rw [List.cons_append, framesFrom, if_neg (Ne.symm hline.1), ih hline.2,
        List.append_assoc, List.singleton_append]

theorem framesFrom_join {lines : List (List α)} (hlines : ∀ line ∈ lines, separator ∉ line) :
    framesFrom separator [] (join separator lines) = lines := by
  induction lines with
  | nil => rfl
  | cons line lines ih =>
      rw [List.forall_mem_cons] at hlines
      have hjoin : join separator (line :: lines) = line ++ separator :: join separator lines := by
        simp [join]
      rw [hjoin, framesFrom_append hlines.1, ih hlines.2, List.nil_append]

/-- The frames of joined lines are the lines. -/
theorem delimiter_join (maximum : Nat) {lines : List (List α)}
    (hlines : ∀ line ∈ lines, separator ∉ line) :
    delimiter separator maximum (join separator lines) =
      if ∀ line ∈ lines, line.length ≤ maximum then some lines else none := by
  rw [delimiter, framesFrom_join hlines]
  simp only [List.all_eq_true, decide_eq_true_eq]

end Framing

end Otoroshi
