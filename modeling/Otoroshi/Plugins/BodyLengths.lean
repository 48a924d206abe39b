/-
# Limits on the length of a body

The request and the response body length limiters cut a body that arrives in chunks. The first
chunk is cut to size. A later one is kept whole or not at all, by a counter that has to stay
below the limit, and after the first one that is not kept the body ends.

So the body is cut right exactly when the first chunk alone reaches the limit or the whole body
stays below it. A body without a chunk has no first one, and its stream fails.
-/

import Mathlib.Data.List.Basic

namespace Otoroshi

/-- A body as it is streamed: its chunks, and whether the stream fails behind them. -/
structure BodyStream where
  chunks : List (List UInt8)
  fails : Bool
  deriving DecidableEq

structure BodyLengthLimiterConfig where
  maxLength : Option Nat := none
  fail : Bool := false

/-- The message that a limiter gets. -/
structure LimitedMessage where
  contentLength : Option Nat
  body : List (List UInt8)

/-- What a limiter makes of a message: an error of its own, or a body. -/
inductive Limited
  | entityTooLarge
  | body (stream : BodyStream)
  deriving DecidableEq

namespace BodyLengthLimiter

/-- `takeWhile`, with the counter that each chunk is added to. -/
def takeWhile (max : Nat) : Nat → List (List UInt8) → List (List UInt8)
  | _, [] => []
  | counter, chunk :: tail =>
      if counter + chunk.length < max then chunk :: takeWhile max (counter + chunk.length) tail
      else []

/-- `limitWeighted`, by the length of the chunks: the first one that exceeds the limit fails the
stream. -/
def limitWeighted : Nat → List (List UInt8) → BodyStream
  | _, [] => ⟨[], false⟩
  | left, chunk :: tail =>
      if chunk.length ≤ left then
        let limited := limitWeighted (left - chunk.length) tail
        ⟨chunk :: limited.chunks, limited.fails⟩
      else ⟨[], true⟩

/-- The body that `chunkResponse` streams. -/
def cut (max : Nat) : List (List UInt8) → BodyStream
  -- `headSeq.head` throws where there is no chunk
  | [] => ⟨[], true⟩
  | headChunk :: tail =>
      let first := if max < headChunk.length then headChunk.take max else headChunk
      ⟨first :: takeWhile max first.length tail, false⟩

/-- What both limiters do with a message. -/
def transform (chunkResponse : Nat → List (List UInt8) → BodyStream)
    (config : BodyLengthLimiterConfig) (message : LimitedMessage) : Limited :=
  let max := config.maxLength.getD (4 * 1024 * 1024)
  if config.fail then
    if message.contentLength.any (max < ·) then .entityTooLarge
    else .body (limitWeighted max message.body)
  else .body (chunkResponse max message.body)

end BodyLengthLimiter

namespace RequestBodyLengthLimiter

def chunkResponse : Nat → List (List UInt8) → BodyStream := BodyLengthLimiter.cut

def transformRequest : BodyLengthLimiterConfig → LimitedMessage → Limited :=
  BodyLengthLimiter.transform chunkResponse

end RequestBodyLengthLimiter

namespace ResponseBodyLengthLimiter

def chunkResponse : Nat → List (List UInt8) → BodyStream := BodyLengthLimiter.cut

def transformResponse : BodyLengthLimiterConfig → LimitedMessage → Limited :=
  BodyLengthLimiter.transform chunkResponse

end ResponseBodyLengthLimiter

namespace BodyLengthLimiter

/-- The outcome is the first bytes of the body, as many as the limit lets through, and the stream
does not fail. -/
def CutsExactly (max : Nat) (body : List (List UInt8)) (outcome : Limited) : Prop :=
  ∃ chunks, outcome = .body ⟨chunks, false⟩ ∧ chunks.flatten = body.flatten.take max

/-- The first chunk reaches the limit, or the body stays below it. -/
def Fits (max : Nat) : List (List UInt8) → Prop
  | [] => False
  | headChunk :: tail => max ≤ headChunk.length ∨ (headChunk :: tail).flatten.length < max

variable {max counter : Nat} {headChunk : List UInt8} {tail : List (List UInt8)}

/-- Below the limit the counter never stops a chunk. -/
theorem takeWhile_of_lt (h : counter + tail.flatten.length < max) :
    takeWhile max counter tail = tail := by
  induction tail generalizing counter with
  | nil => rfl
  | cons chunk tail ih =>
      rw [List.flatten_cons, List.length_append] at h
      rw [takeWhile, if_pos (by omega), ih (by omega)]

/-- The chunks kept behind the first one always stay below the limit. -/
theorem length_takeWhile_lt (h : counter < max) :
    counter + (takeWhile max counter tail).flatten.length < max := by
  induction tail generalizing counter with
  | nil => exact h
  | cons chunk tail ih =>
      rw [takeWhile]
      split_ifs with hchunk
      · have hrest := ih hchunk
        rw [List.flatten_cons, List.length_append]
        omega
      · exact h

theorem takeWhile_of_le (h : max ≤ counter) : takeWhile max counter tail = [] := by
  cases tail with
  | nil => rfl
  | cons chunk tail => rw [takeWhile, if_neg (by omega)]

/-- A first chunk that reaches the limit is all that is left of the body. -/
theorem cut_of_le (h : max ≤ headChunk.length) :
    cut max (headChunk :: tail) = ⟨[headChunk.take max], false⟩ := by
  have hfirst : (if max < headChunk.length then headChunk.take max else headChunk) =
      headChunk.take max := by
    split_ifs with hlonger
    · rfl
    · rw [List.take_of_length_le (Nat.le_of_not_lt hlonger)]
  simp only [cut, hfirst]
  have hcounted : (headChunk.take max).length = max := by rw [List.length_take, Nat.min_eq_left h]
  rw [takeWhile_of_le (Nat.le_of_eq hcounted.symm)]

theorem cut_of_lt (h : headChunk.length < max) :
    cut max (headChunk :: tail) = ⟨headChunk :: takeWhile max headChunk.length tail, false⟩ := by
  have hfirst : (if max < headChunk.length then headChunk.take max else headChunk) = headChunk :=
    if_neg (Nat.not_lt_of_lt h)
  simp only [cut, hfirst]

/-- The cut is exact where the chunks allow it, and nowhere else. -/
theorem cut_iff (max : Nat) (body : List (List UInt8)) :
    CutsExactly max body (.body (cut max body)) ↔ Fits max body := by
  cases body with
  | nil =>
      refine iff_of_false ?_ id
      rintro ⟨chunks, houtcome, -⟩
      cases houtcome
  | cons headChunk tail =>
      by_cases hreaches : max ≤ headChunk.length
      · refine iff_of_true ⟨_, congrArg _ (cut_of_le hreaches), ?_⟩ (.inl hreaches)
        rw [List.flatten_singleton, List.flatten_cons, List.take_append_of_le_length hreaches]
      · have hbelow := Nat.lt_of_not_le hreaches
        rw [cut_of_lt hbelow]
        by_cases htotal : (headChunk :: tail).flatten.length < max
        · rw [takeWhile_of_lt (by simpa using htotal)]
          refine iff_of_true ⟨_, rfl, ?_⟩ (.inr htotal)
          rw [List.take_of_length_le (Nat.le_of_lt htotal)]
        · refine iff_of_false ?_ (not_or_intro hreaches htotal)
          rintro ⟨chunks, houtcome, hbytes⟩
          cases houtcome
          have hkept : headChunk.length +
              (takeWhile max headChunk.length tail).flatten.length < max :=
            length_takeWhile_lt hbelow
          have hlength := congrArg List.length hbytes
          rw [List.flatten_cons, List.length_append, List.length_take,
            Nat.min_eq_left (Nat.le_of_not_lt htotal)] at hlength
          omega

/-- Without `fail`, both limiters cut a body exactly when its first chunk reaches the limit or all
of it stays below. -/
theorem cutsExactly_iff_fits (maxLength : Option Nat) (message : LimitedMessage) :
    (CutsExactly (maxLength.getD (4 * 1024 * 1024)) message.body
        (RequestBodyLengthLimiter.transformRequest ⟨maxLength, false⟩ message) ↔
      Fits (maxLength.getD (4 * 1024 * 1024)) message.body) ∧
    (CutsExactly (maxLength.getD (4 * 1024 * 1024)) message.body
        (ResponseBodyLengthLimiter.transformResponse ⟨maxLength, false⟩ message) ↔
      Fits (maxLength.getD (4 * 1024 * 1024)) message.body) :=
  ⟨cut_iff _ _, cut_iff _ _⟩

/-- The last chunk of a body of two bytes is dropped although the limit lets it through, and a
body without a chunk fails. -/
theorem exists_not_cutsExactly :
    ¬ CutsExactly 2 [[1], [2]]
        (RequestBodyLengthLimiter.transformRequest ⟨some 2, false⟩ ⟨none, [[1], [2]]⟩) ∧
      ¬ CutsExactly 2 []
        (ResponseBodyLengthLimiter.transformResponse ⟨some 2, false⟩ ⟨none, []⟩) := by
  constructor
  · rintro ⟨chunks, houtcome, hbytes⟩
    cases houtcome
    exact absurd hbytes (by decide)
  · rintro ⟨chunks, houtcome, -⟩
    cases houtcome

end BodyLengthLimiter

end Otoroshi
