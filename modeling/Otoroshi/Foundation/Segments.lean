/-
# Segments of a text

A text is cut at a separator, and the pieces that are blank are left out. Where segments are
written one after the other, with a separator between them, somewhere in a text, and taken out of
it, the segments that are left are not always those of the text without the first ones:
`segments_remove_iff` says when they are. What is taken out has to begin and to end with segments
of the text, and the segments before it have to commute with it.
-/

import Mathlib.Algebra.Order.Ring.Nat
import Otoroshi.Foundation.Text

namespace Otoroshi

/-- A piece has the characters of the text besides the separator. -/
theorem mem_splitOn {separator : Char} {s piece : Str} (h : piece ∈ s.splitOn separator) :
    separator ∉ piece ∧ ∀ c ∈ piece, c ∈ s := by
  by_cases hmem : separator ∈ s
  · obtain ⟨before, after, hs, hbefore⟩ := List.eq_append_cons_of_mem hmem
    rw [hs, List.splitOn_append_cons_self, List.splitOn_eq_singleton hbefore,
      List.singleton_append, List.mem_cons] at h
    rcases h with rfl | h
    · exact ⟨hbefore, fun c hc => hs ▸ List.mem_append_left _ hc⟩
    · have ih := mem_splitOn h
      exact ⟨ih.1, fun c hc => hs ▸ List.mem_append_right _ (List.mem_cons_of_mem _ (ih.2 c hc))⟩
  · rw [List.splitOn_eq_singleton hmem, List.mem_singleton] at h
    subst h
    exact ⟨hmem, fun _ hc => hc⟩
termination_by s.length
decreasing_by rw [hs]; simp; omega

namespace Segments

variable (separator : Char) (blank : Char → Bool)

/-- The pieces that are not blank. -/
def segments (s : Str) : List Str := (s.splitOn separator).filter fun piece => !piece.all blank

/-- Segments, each behind a separator. -/
def led (rest : List Str) : Str := rest.flatMap fun segment => separator :: segment

structure IsSegment (s : Str) : Prop where
  notMem : separator ∉ s
  notBlank : s.all blank = false

/-- A segment of the text may begin behind. -/
def EndsSegment (before : Str) : Prop := before = [] ∨ ∃ front, before = front ++ [separator]

/-- A segment of the text may end before. -/
def BeginsSegment (after : Str) : Prop := after = [] ∨ ∃ back, after = separator :: back

variable {separator blank} {first : Str} {rest : List Str}

theorem segments_append_cons (before after : Str) :
    segments separator blank (before ++ separator :: after) =
      segments separator blank before ++ segments separator blank after := by
  rw [segments, List.splitOn_append_cons_self, List.filter_append]
  rfl

theorem segments_of_notMem {s : Str} (h : separator ∉ s) :
    segments separator blank s = if s.all blank = true then [] else [s] := by
  rw [segments, List.splitOn_eq_singleton h, List.filter_singleton]
  cases s.all blank with
  | true => rfl
  | false => rfl

@[simp]
theorem segments_nil : segments separator blank [] = [] :=
  (segments_of_notMem List.not_mem_nil).trans rfl

theorem isSegment_of_mem {s piece : Str} (h : piece ∈ segments separator blank s) :
    IsSegment separator blank piece := by
  obtain ⟨hpiece, hblank⟩ := List.mem_filter.mp h
  exact ⟨(mem_splitOn hpiece).1, by simpa using hblank⟩

/-- What comes before the last piece of a text does not change when the text goes on. -/
theorem exists_last (before : Str) : ∃ lead last, separator ∉ last ∧
    (last = [] → EndsSegment separator before) ∧
      ∀ t, segments separator blank (before ++ t) =
        lead ++ segments separator blank (last ++ t) := by
  induction before using List.reverseRec with
  | nil => exact ⟨[], [], List.not_mem_nil, fun _ => .inl rfl, fun t => rfl⟩
  | append_singleton before c ih =>
      by_cases hc : c = separator
      · subst hc
        refine ⟨segments c blank before, [], List.not_mem_nil, fun _ => .inr ⟨before, rfl⟩,
          fun t => ?_⟩
        rw [List.append_assoc, List.singleton_append, segments_append_cons, List.nil_append]
      · obtain ⟨lead, last, hlast, -, hlead⟩ := ih
        refine ⟨lead, last ++ [c], ?_, fun hnil => absurd hnil (by simp), fun t => ?_⟩
        · rw [List.mem_append, not_or]
          exact ⟨hlast, fun hmem => hc (List.mem_singleton.mp hmem).symm⟩
        · rw [List.append_assoc, hlead, List.append_assoc]

/-- What comes behind the first piece of a text does not change when something comes before. -/
theorem exists_first (after : Str) : ∃ first trail, separator ∉ first ∧
    (first = [] → BeginsSegment separator after) ∧
      ∀ t, segments separator blank (t ++ after) =
        segments separator blank (t ++ first) ++ trail := by
  induction after with
  | nil => exact ⟨[], [], List.not_mem_nil, fun _ => .inl rfl, fun t => (List.append_nil _).symm⟩
  | cons c after ih =>
      by_cases hc : c = separator
      · subst hc
        refine ⟨[], segments c blank after, List.not_mem_nil, fun _ => .inr ⟨after, rfl⟩,
          fun t => ?_⟩
        rw [segments_append_cons, List.append_nil]
      · obtain ⟨first, trail, hfirst, -, htrail⟩ := ih
        refine ⟨c :: first, trail, ?_, fun hnil => absurd hnil (List.cons_ne_nil c first),
          fun t => ?_⟩
        · rw [List.mem_cons, not_or]
          exact ⟨fun hmem => hc hmem.symm, hfirst⟩
        · rw [List.append_cons, htrail, ← List.append_cons]

/-- The characters of all segments. -/
def size (pieces : List Str) : Nat := (pieces.map List.length).sum

theorem size_append (pieces others : List Str) :
    size (pieces ++ others) = size pieces + size others := by
  rw [size, List.map_append, List.sum_append]
  rfl

theorem segments_of_isSegment {lead trail : Str} (h : IsSegment separator blank first)
    (hlead : separator ∉ lead) (htrail : separator ∉ trail) :
    segments separator blank (lead ++ first ++ trail) = [lead ++ first ++ trail] := by
  rw [segments_of_notMem (by simp [h.notMem, hlead, htrail]), List.all_append, List.all_append,
    h.notBlank, Bool.and_false, Bool.false_and, if_neg Bool.false_ne_true]

/-- Segments that are written between other characters are as many, and those characters are all
that is new. -/
theorem segments_between {lead trail : Str} (hfirst : IsSegment separator blank first)
    (hrest : ∀ segment ∈ rest, IsSegment separator blank segment) (hlead : separator ∉ lead)
    (htrail : separator ∉ trail) : ∃ pieces,
      segments separator blank (lead ++ (first ++ led separator rest) ++ trail) = pieces ∧
        pieces.length = rest.length + 1 ∧
        size pieces = lead.length + size (first :: rest) + trail.length ∧
        (lead = [] → trail = [] → pieces = first :: rest) := by
  induction rest generalizing first lead with
  | nil =>
      refine ⟨_, segments_of_isSegment ?_ hlead htrail, rfl, ?_, ?_⟩
      · rwa [led, List.flatMap_nil, List.append_nil]
      · simp only [size, led, List.flatMap_nil, List.append_nil, List.map_cons, List.map_nil,
          List.sum_cons, List.sum_nil, List.length_append]
        omega
      · rintro rfl rfl
        simp [led]
  | cons second rest ih =>
      obtain ⟨pieces, hpieces, hlength, hsize, hsame⟩ := @ih second []
        (hrest second List.mem_cons_self)
        (fun segment hmem => hrest segment (List.mem_cons_of_mem second hmem)) List.not_mem_nil
      have htext : lead ++ (first ++ led separator (second :: rest)) ++ trail =
          (lead ++ first ++ []) ++
            separator :: ([] ++ (second ++ led separator rest) ++ trail) := by
        simp [led]
      rw [htext, segments_append_cons, segments_of_isSegment hfirst hlead List.not_mem_nil, hpieces]
      refine ⟨_, rfl, ?_, ?_, ?_⟩
      · simp [hlength]
      · rw [size_append, hsize]
        simp [size]
        omega
      · rintro rfl rfl
        rw [hsame rfl rfl]
        simp

theorem segments_led (hfirst : IsSegment separator blank first)
    (hrest : ∀ segment ∈ rest, IsSegment separator blank segment) :
    segments separator blank (first ++ led separator rest) = first :: rest := by
  obtain ⟨pieces, hpieces, -, -, hsame⟩ := @segments_between separator blank first rest [] []
    hfirst hrest List.not_mem_nil List.not_mem_nil
  rw [List.nil_append, List.append_nil] at hpieces
  rw [hpieces, hsame rfl rfl]

theorem EndsSegment.segments_append {before : Str} (h : EndsSegment separator before) (t : Str) :
    segments separator blank (before ++ t) =
      segments separator blank before ++ segments separator blank t := by
  rcases h with rfl | ⟨front, rfl⟩
  · rw [segments_nil, List.nil_append, List.nil_append]
  · rw [List.append_assoc, List.singleton_append, segments_append_cons, segments_append_cons,
      segments_nil, List.append_nil]

theorem BeginsSegment.segments_append {after : Str} (h : BeginsSegment separator after) (t : Str) :
    segments separator blank (t ++ after) =
      segments separator blank t ++ segments separator blank after := by
  rcases h with rfl | ⟨back, rfl⟩
  · rw [segments_nil, List.append_nil, List.append_nil]
  · rw [segments_append_cons]
    exact congrArg _ (segments_append_cons [] back).symm

/-- Segments that are taken out of a text leave what the text has without the first ones exactly
if they are segments of the text there, and the ones before them commute with them. -/
theorem segments_remove_iff (hfirst : IsSegment separator blank first)
    (hrest : ∀ segment ∈ rest, IsSegment separator blank segment) (before after : Str) :
    segments separator blank (before ++ (first ++ led separator rest) ++ after) =
        (first :: rest) ++ segments separator blank (before ++ after) ↔
      EndsSegment separator before ∧ BeginsSegment separator after ∧
        (first :: rest) ++ segments separator blank before =
          segments separator blank before ++ (first :: rest) := by
  obtain ⟨lead, last, hlast, hends, hbefore⟩ := @exists_last separator blank before
  obtain ⟨next, trail, hnext, hbegins, hafter⟩ := @exists_first separator blank after
  obtain ⟨pieces, hpieces, hlength, hsize, hsame⟩ := segments_between hfirst hrest hlast hnext
  have hwhole : segments separator blank (before ++ (first ++ led separator rest) ++ after) =
      lead ++ pieces ++ trail := by
    rw [hafter, List.append_assoc, hbefore, ← List.append_assoc last, hpieces]
  have hleft : segments separator blank (before ++ after) =
      lead ++ segments separator blank (last ++ next) ++ trail := by
    rw [hafter, hbefore]
  have hbetween : separator ∉ last ++ next := by
    rw [List.mem_append, not_or]
    exact ⟨hlast, hnext⟩
  constructor
  · intro h
    rw [hwhole, hleft] at h
    have hcount := congrArg List.length h
    have hchars := congrArg size h
    have hnone : segments separator blank (last ++ next) = [] := by
      rw [← List.length_eq_zero_iff]
      simp only [List.length_append, List.length_cons] at hcount
      omega
    rw [hnone] at h hchars
    simp only [size_append, List.append_nil] at hchars
    have hlast' : last = [] := List.length_eq_zero_iff.mp (by omega)
    have hnext' : next = [] := List.length_eq_zero_iff.mp (by omega)
    have hlead : segments separator blank before = lead := by
      have h := hbefore []
      rwa [List.append_nil, hlast', List.append_nil, segments_nil, List.append_nil] at h
    rw [hsame hlast' hnext', List.append_nil, ← List.append_assoc] at h
    rw [hlead]
    exact ⟨hends hlast', hbegins hnext', (List.append_cancel_right h).symm⟩
  · rintro ⟨hends', hbegins', hcommute⟩
    rw [hbegins'.segments_append, hends'.segments_append, segments_led hfirst hrest, ← hcommute,
      hbegins'.segments_append, List.append_assoc]

end Segments

end Otoroshi
