/-
# The pattern interpolator

A pattern `r"literal$name@(regex)literal"` reaches the program as the parts of its text around
the holes. `buildSource` writes a regular expression from them: the first part as it is, and for
each hole the group that the next part starts with, or one that matches anything. The extractor
keeps the compiled pattern together with its literal head, and refuses an input that does not
start with the head before it asks the pattern.

A hole is known here by the place of the source at which the group written for it opens.
-/

import Otoroshi.Foundation.RegexMatching
import Mathlib.Data.List.Sort

namespace Otoroshi

namespace KaleidoscopeShim

open JavaRegex

/-- The characters that end the literal characters of a part. -/
def metacharacters : Utf16 := utf16 "\\.[]()\x7b\x7d*+?^$|".toList

/-- Those that may make the character in front of them optional. -/
def steppingBack : Utf16 := utf16 "*?\x7b".toList

def literalHead (firstPart source : Utf16) : Utf16 :=
  if codeUnit '|' ∈ source then []
  else match firstPart.findIdx? (· ∈ metacharacters) with
    | none => firstPart
    | some stop =>
        if (firstPart[stop]?).any (· ∈ steppingBack) then firstPart.take (stop - 1)
        else firstPart.take stop

/-- The loop of `splitGroup`: how many characters the group takes, `i` of which are read. -/
def groupLength (depth : Int) (inClass : Bool) (i : Nat) : Utf16 → Option Nat
  | [] => none
  | c :: rest =>
      if c = codeUnit '\\' then
        match rest with
        | [] => none
        | _ :: rest => groupLength depth inClass (i + 2) rest
      else if c = codeUnit '[' then groupLength depth true (i + 1) rest
      else if c = codeUnit ']' then groupLength depth false (i + 1) rest
      else if !inClass && c == codeUnit '(' then groupLength (depth + 1) inClass (i + 1) rest
      else if !inClass && c == codeUnit ')' then
        if depth - 1 = 0 then some (i + 1) else groupLength (depth - 1) inClass (i + 1) rest
      else groupLength depth inClass (i + 1) rest

/-- The group a text starts with and the rest, `none` where the group is not balanced. -/
def splitGroup (s : Utf16) : Option (Utf16 × Utf16) :=
  (groupLength 0 false 0 s).map fun n => (s.take n, s.drop n)

/-- A part that gives the group of the hole in front of it. -/
def declaresGroup (part : Utf16) : Bool := (utf16 "@(".toList).isPrefixOf part

/-- One turn of the loop of `buildSource`. -/
def append (sb part : Utf16) : Option Utf16 :=
  if declaresGroup part then
    (splitGroup (part.drop 1)).map fun (group, rest) => sb ++ group ++ rest
  else some (sb ++ utf16 "(.*)".toList ++ part)

/-- `none` where the parts are refused. -/
def buildSource : List Utf16 → Option Utf16
  | [] => none
  | first :: parts => parts.foldlM append first

structure RegexExtractor where
  regex : Pattern
  head : Utf16

def RegexExtractor.unapplySeq (extractor : RegexExtractor) (input : Utf16) :
    Option (List (Option Utf16)) :=
  if extractor.head.isPrefixOf input then extractor.regex.unapplySeq input else none

/-- The extractor of a pattern, `none` where its parts or its source are refused. -/
def extractorOf (P : Platform) (parts : List Utf16) : Option RegexExtractor :=
  (buildSource parts).bind fun source =>
    (Pattern.compile P source).map fun regex =>
      ⟨regex, literalHead (parts.headD []) source⟩

/-! ## Holes -/

/-- The length of what `append` writes for a hole and the part behind it. -/
def width (part : Utf16) : Nat :=
  if declaresGroup part then part.length - 1 else part.length + 4

def holesFrom : Nat → List Utf16 → List Nat
  | _, [] => []
  | place, part :: parts => place :: holesFrom (place + width part) parts

/-- Where the source has the groups written for the holes, in the order of the holes. -/
def holes : List Utf16 → List Nat
  | [] => []
  | first :: parts => holesFrom first.length parts

theorem append_splitGroup {s group rest : Utf16} (h : splitGroup s = some (group, rest)) :
    group ++ rest = s := by
  obtain ⟨n, -, hsplit⟩ := Option.map_eq_some_iff.mp h
  obtain ⟨rfl, rfl⟩ := Prod.mk.inj hsplit
  exact List.take_append_drop n s

/-- What is written for a hole starts with a parenthesis and has the length of its part. -/
theorem exists_of_append {sb part next : Utf16} (h : append sb part = some next) :
    ∃ piece, next = sb ++ piece ∧ piece.head? = some (codeUnit '(') ∧
      piece.length = width part := by
  unfold append at h
  unfold width
  split_ifs at h ⊢ with hdeclares
  · obtain ⟨⟨group, rest⟩, hsplit, rfl⟩ := Option.map_eq_some_iff.mp h
    refine ⟨group ++ rest, List.append_assoc .., ?_, ?_⟩
    · rw [append_splitGroup hsplit]
      obtain ⟨more, rfl⟩ := List.isPrefixOf_iff_prefix.mp hdeclares
      rfl
    · rw [append_splitGroup hsplit, List.length_drop]
  · refine ⟨utf16 "(.*)".toList ++ part, ?_, rfl, ?_⟩
    · rw [← Option.some.inj h, List.append_assoc]
    · rw [List.length_append, Nat.add_comm]
      rfl

/-- The source goes on behind its first part with a group, if at all. -/
theorem exists_of_buildSource {sb source : Utf16} {parts : List Utf16}
    (h : parts.foldlM append sb = some source) :
    ∃ more, source = sb ++ more ∧ (∀ u ∈ more.head?, u = codeUnit '(') ∧
      ∀ k ∈ holesFrom sb.length parts, source[k]? = some (codeUnit '(') := by
  induction parts generalizing sb with
  | nil =>
      rw [List.foldlM_nil] at h
      refine ⟨[], ?_, ?_, ?_⟩
      · rw [← Option.some.inj h, List.append_nil]
      · intro u hu
        cases hu
      · intro k hk
        cases hk
  | cons part parts ih =>
      obtain ⟨next, hnext, h⟩ := Option.bind_eq_some_iff.mp h
      obtain ⟨piece, rfl, hhead, hlength⟩ := exists_of_append hnext
      obtain ⟨more, rfl, -, hholes⟩ := ih h
      obtain ⟨rest, rfl⟩ : ∃ rest, piece = codeUnit '(' :: rest :=
        ⟨piece.tail, (List.cons_head?_tail hhead).symm⟩
      refine ⟨codeUnit '(' :: rest ++ more, List.append_assoc .., ?_, ?_⟩
      · intro u hu
        exact (Option.some.inj hu).symm
      · intro k hk
        rcases List.mem_cons.mp hk with rfl | hk
        · rw [List.append_assoc, List.getElem?_append_right le_rfl, Nat.sub_self]
          rfl
        · rw [← hlength, ← List.length_append] at hk
          exact hholes k hk

theorem width_pos (part : Utf16) : 0 < width part := by
  unfold width
  split_ifs with hdeclares
  · have hlength := (List.isPrefixOf_iff_prefix.mp hdeclares).length_le
    have htwo : (utf16 "@(".toList).length = 2 := rfl
    omega
  · omega

theorem le_of_mem_holesFrom {place k : Nat} {parts : List Utf16}
    (h : k ∈ holesFrom place parts) : place ≤ k := by
  induction parts generalizing place with
  | nil => cases h
  | cons part parts ih =>
      rcases List.mem_cons.mp h with rfl | h
      · exact le_rfl
      · exact (Nat.le_add_right _ _).trans (ih h)

theorem pairwise_holesFrom (place : Nat) (parts : List Utf16) :
    (holesFrom place parts).Pairwise (· < ·) := by
  induction parts generalizing place with
  | nil => exact List.Pairwise.nil
  | cons part parts ih =>
      refine List.pairwise_cons.mpr ⟨fun k hk => ?_, ih _⟩
      have hle := le_of_mem_holesFrom hk
      have hpos := width_pos part
      omega

/-- The holes stand in the source in their order. -/
theorem pairwise_holes (parts : List Utf16) : (holes parts).Pairwise (· < ·) := by
  cases parts with
  | nil => exact List.Pairwise.nil
  | cons first parts => exact pairwise_holesFrom _ _

/-- The groups of a source that are all written for holes are those of the holes, in their order,
exactly when each hole is where a group opens. -/
theorem groups_eq_holes_iff {parts : List Utf16} {source : Utf16}
    (hother : ∀ k ∈ groups source, k ∈ holes parts) :
    groups source = holes parts ↔ ∀ k ∈ holes parts, OpensAt source k := by
  constructor
  · intro heq k hk
    exact mem_groups_iff.mp (heq ▸ hk)
  · intro hopens
    refine (pairwise_groups source).eq_of_mem_iff (pairwise_holes parts) fun {k} => ?_
    exact ⟨hother k, fun hk => mem_groups_iff.mpr (hopens k hk)⟩

end KaleidoscopeShim

end Otoroshi
