/-
# Cases of the context

The namespaces `token` and `ctx` have patterns that replace a text in the value of a name or try two
names of the context. They stand before the pattern with a default, so they take an expression whose
default happens to look like theirs, and none of them gives what was asked for in every context
(`spoils_of_mem`).
-/

import Otoroshi.El.Namespaces

namespace Otoroshi

namespace GlobalExpressionLanguage

open Captures

/-- One name has a value. -/
def single (name value : Str) : Str → Option Str :=
  fun other => if other = name then some value else none

theorem single_self (name value : Str) : single name value name = some value := if_pos rfl

theorem single_of_ne {name value other : Str} (h : other ≠ name) :
    single name value other = none := if_neg h

def chars (text : String) : List Item := text.toList.map .char

/-- What is left of the patterns of the context behind the name and the dot. -/
def contextualRests (kind : String) : List (List Item) := [
  [.group, .any] ++ chars "replace('" ++ [.group] ++ chars "', '" ++ [.group] ++ chars "')",
  [.group, .any] ++ chars "replace('" ++ [.group] ++ chars "','" ++ [.group] ++ chars "')",
  [.group, .any] ++ chars "replaceAll('" ++ [.group] ++ chars "','" ++ [.group] ++ chars "')",
  [.group, .char '|'] ++ chars kind ++ [.any, .group, .char ':', .group],
  [.group, .char '|'] ++ chars kind ++ [.any, .group]]

theorem advance_contextual : ∀ kind ∈ ["token", "ctx"],
    (contextual plainPlatform kind).dropLast.map (fun c =>
        match c.pattern with
        | .groups items => advance items (kind.toList ++ ['.'])
        | _ => none) =
      (contextualRests kind).map some := by
  decide +kernel

section Contextual

variable {P : ElPlatform} {kind : String} {name default : Str} {c : ElCase} {source : List Item}

theorem count_chars (text : String) : (chars text).count .group = 0 :=
  List.count_eq_zero.mpr fun h => by simp [chars] at h

theorem countP_chars (text : String) : (chars text).countP (· != .group) = text.toList.length := by
  rw [List.countP_eq_length.mpr fun item hitem => ?_, chars, List.length_map]
  obtain ⟨c, -, rfl⟩ := List.mem_map.mp hitem
  rfl

/-- Where the case takes the expression, it always answers, and in some context it gives neither the
value of the name nor the default. -/
def Spoils (kind : String) (name default : Str) (c : ElCase) : Prop :=
  ∀ captures, c.pattern.captures (kind.toList ++ ['.'] ++ (name ++ ':' :: default)) = some captures →
    (∀ w, c.run w captures ≠ none) ∧ ∃ context, ∀ w : ElWorld, w.context = context →
      ∃ text, Found.text? (c.run w captures) = some text ∧ text ≠ (context name).getD default

theorem fits_behind {rest : List Item} {captures : List Str} (hpattern : c.pattern = .groups source)
    (hadvance : advance source (kind.toList ++ ['.']) = some rest)
    (h : c.pattern.captures (kind.toList ++ ['.'] ++ (name ++ ':' :: default)) = some captures) :
    Fits rest captures (name ++ ':' :: default) := by
  rw [hpattern, ElPattern.captures, unapply_of_advance hadvance] at h
  exact fits_of_unapply h

/-- If the name is replaced in, the default is the rest of the pattern and begins with an `r`. -/
theorem spoils_of_replacing {rest : List Item} (hpattern : c.pattern = .groups source)
    (hadvance : advance source (kind.toList ++ ['.']) =
      some (.group :: .any :: .char 'r' :: rest))
    (hcount : rest.count .group = 2) (hsome : ∀ w field a b, c.run w [field, a, b] ≠ none)
    (habsent : ∀ w field a b, w.context field = none →
      ∃ what, c.run w [field, a, b] = some (.absent what)) : Spoils kind name default c := by
  intro captures hcaptures
  have hfits := fits_behind hpattern hadvance hcaptures
  have hlength := hfits.length_captures
  rw [List.count_cons_self, List.count_cons_of_ne (by nofun), List.count_cons_of_ne (by nofun),
    hcount] at hlength
  obtain ⟨field, a, b, rfl⟩ := List.length_eq_three.mp hlength
  refine ⟨fun w => hsome w field a b, ?_⟩
  by_cases hfield : field = name
  · refine ⟨fun _ => none, fun w hw => ?_⟩
    obtain ⟨what, hwhat⟩ := habsent w field a b (by rw [hw])
    refine ⟨"no-".toList ++ what, by rw [hwhat]; rfl, fun hdefault => ?_⟩
    obtain ⟨behind, hbehind, hany⟩ := hfits.group_inv
    obtain ⟨d, behind, rfl, hr⟩ := hany.any_inv
    obtain ⟨behind, rfl, -⟩ := hr.char_inv
    rw [hfield, List.append_cancel_left_eq, List.cons.injEq] at hbehind
    rw [Option.getD_none, hbehind.2] at hdefault
    have hchar := (List.cons.inj hdefault).1
    revert hchar
    decide
  · refine ⟨single name [], fun w hw => ?_⟩
    obtain ⟨what, hwhat⟩ := habsent w field a b (by rw [hw, single_of_ne hfield])
    refine ⟨"no-".toList ++ what, by rw [hwhat]; rfl, ?_⟩
    rw [single_self]
    exact List.cons_ne_nil _ _

/-- If two names are tried, they and the second name of the context have to fit into the name. -/
theorem spoils_of_either_default (hpattern : c.pattern = .groups source)
    (hadvance : advance source (kind.toList ++ ['.']) =
      some ([.group, .char '|'] ++ chars kind ++ [.any, .group, .char ':', .group]))
    (hrun : ∀ w field field2 dv, c.run w [field, field2, dv] =
      some (.value (((w.context field).or (w.context field2)).getD dv))) :
    Spoils kind name default c := by
  intro captures hcaptures
  have hfits := fits_behind hpattern hadvance hcaptures
  have hlength := hfits.length_captures
  have htext := hfits.length_text
  rw [List.count_append, List.count_append, count_chars] at hlength
  rw [List.countP_append, List.countP_append, countP_chars] at htext
  obtain ⟨field, field2, dv, rfl⟩ := List.length_eq_three.mp hlength
  refine ⟨fun w => by rw [hrun]; exact Option.some_ne_none _, ?_⟩
  by_cases hdv : dv = default
  · have hshort : field.length + field2.length + 2 ≤ name.length := by
      rw [hdv] at htext
      simp at htext
      omega
    have hfield : field ≠ name := fun h => by rw [h] at hshort; omega
    have hfield2 : field2 ≠ name := fun h => by rw [h] at hshort; omega
    refine ⟨single name ('x' :: default), fun w hw => ⟨default, ?_, ?_⟩⟩
    · rw [hrun, hw, single_of_ne hfield, single_of_ne hfield2, hdv]
      rfl
    · rw [single_self]
      exact (List.cons_ne_self 'x' default).symm
  · refine ⟨fun _ => none, fun w hw => ⟨dv, ?_, hdv⟩⟩
    rw [hrun, hw]
    rfl

theorem spoils_of_either (hpattern : c.pattern = .groups source)
    (hadvance : advance source (kind.toList ++ ['.']) =
      some ([.group, .char '|'] ++ chars kind ++ [.any, .group]))
    (hrun : ∀ w field field2, c.run w [field, field2] =
      some (orAbsent (.ok ((w.context field).or (w.context field2)))
        (kind.toList ++ '-' :: field ++ '-' :: field2))) : Spoils kind name default c := by
  intro captures hcaptures
  have hfits := fits_behind hpattern hadvance hcaptures
  have hlength := hfits.length_captures
  have htext := hfits.length_text
  rw [List.count_append, List.count_append, count_chars] at hlength
  rw [List.countP_append, List.countP_append, countP_chars] at htext
  obtain ⟨field, field2, rfl⟩ := List.length_eq_two.mp hlength
  refine ⟨fun w => by rw [hrun]; exact Option.some_ne_none _, ?_⟩
  have hfield : field ≠ name := by
    rintro rfl
    obtain ⟨behind, hbehind, hbar⟩ := hfits.group_inv
    obtain ⟨behind, rfl, -⟩ := hbar.char_inv
    rw [List.append_cancel_left_eq] at hbehind
    have hchar := (List.cons.inj hbehind).1
    revert hchar
    decide
  by_cases hfield2 : field2 = name
  · refine ⟨fun _ => none, fun w hw => ⟨_, by rw [hrun, hw]; rfl, fun heq => ?_⟩⟩
    have hdefault := congrArg List.length heq
    simp [hfield2] at htext hdefault
    omega
  · refine ⟨single name [], fun w hw => ⟨_, by
      rw [hrun, hw, single_of_ne hfield, single_of_ne hfield2]
      rfl, ?_⟩⟩
    rw [single_self]
    exact List.cons_ne_nil _ _

theorem spoils_of_mem (hkind : kind ∈ ["token", "ctx"]) (hc : c ∈ (contextual P kind).dropLast) :
    Spoils kind name default c := by
  obtain ⟨h0, h⟩ := List.cons.inj (advance_contextual kind hkind)
  obtain ⟨h1, h⟩ := List.cons.inj h
  obtain ⟨h2, h⟩ := List.cons.inj h
  obtain ⟨h3, h⟩ := List.cons.inj h
  obtain ⟨h4, -⟩ := List.cons.inj h
  simp only [contextual, List.dropLast_cons_cons, List.dropLast_singleton, List.mem_cons,
    List.not_mem_nil, or_false] at hc
  rcases hc with rfl | rfl | rfl | rfl | rfl
  · exact spoils_of_replacing rfl h0 (by decide) (fun _ _ _ _ => Option.some_ne_none _)
      fun w field a b hnone => ⟨_, by
        show some (orAbsent (.ok ((w.context field).map _)) _) = _
        rw [hnone]
        rfl⟩
  · exact spoils_of_replacing rfl h1 (by decide) (fun _ _ _ _ => Option.some_ne_none _)
      fun w field a b hnone => ⟨_, by
        show some (orAbsent (.ok ((w.context field).map _)) _) = _
        rw [hnone]
        rfl⟩
  · exact spoils_of_replacing rfl h2 (by decide) (fun _ _ _ _ => Option.some_ne_none _)
      fun w field a b hnone => ⟨_, by
        simp [case3, hnone]
        rfl⟩
  · exact spoils_of_either_default rfl h3 fun _ _ _ _ => rfl
  · exact spoils_of_either rfl h4 fun _ _ _ => rfl

end Contextual

end GlobalExpressionLanguage

end Otoroshi
