/-
# Values of one expression

A value that is one expression between its braces is what the expression is written as
(`apply_quoted`), and stays as it is where the expression throws.

The parts of a chain are no chains, so two levels of `apply` give what any number does, and `apply` is
the recursion of the code (`apply_eq`).
-/

import Otoroshi.El.Language

namespace Otoroshi

namespace GlobalExpressionLanguage

variable {P : ElPlatform} {w : ElWorld}

/-! ## Replacing -/

theorem close_append_brace {text : Str} (h : '}' ∉ text) :
    Placeholders.close (text ++ ['}']) = some (text, []) := by
  induction text with
  | nil => rfl
  | cons c text ih =>
      rw [List.mem_cons, not_or] at h
      rw [List.cons_append, Placeholders.close, if_neg (Ne.symm h.1), ih h.2]
      rfl

/-- What is found between braces has none that closes. -/
theorem notMem_of_close {text content after : Str}
    (h : Placeholders.close text = some (content, after)) : '}' ∉ content := by
  induction text generalizing content with
  | nil => cases h
  | cons c text ih =>
      rw [Placeholders.close] at h
      split_ifs at h with hc
      · cases h
        exact List.not_mem_nil
      · obtain ⟨⟨content', after'⟩, hclose, hfound⟩ := Option.map_eq_some_iff.mp h
        cases hfound
        rw [List.mem_cons, not_or]
        exact ⟨Ne.symm hc, ih hclose⟩

theorem notMem_of_find {text before expr after : Str}
    (h : Placeholders.find "$\x7b".toList text = some (before, expr, after)) : '}' ∉ expr := by
  induction text generalizing before with
  | nil => cases h
  | cons c text ih =>
      rw [Placeholders.find] at h
      split at h
      · next found hplaceholder =>
          cases h
          rw [Placeholders.placeholder] at hplaceholder
          split_ifs at hplaceholder
          obtain ⟨⟨content, after'⟩, hclose, hfound⟩ := Option.map_eq_some_iff.mp hplaceholder
          cases hfound
          have hnone : ((c :: text).take "$\x7b".toList.length).drop 2 = [] := by
            rw [List.drop_eq_nil_iff, List.length_take]
            exact Nat.min_le_left ..
          rw [hnone]
          exact notMem_of_close hclose
      · obtain ⟨⟨before', expr', after'⟩, hfind, hfound⟩ := Option.map_eq_some_iff.mp h
        cases hfound
        exact ih hfind

theorem find_quoted {expr : Str} (h : '}' ∉ expr) :
    Placeholders.find "$\x7b".toList (quoted expr) = some ([], expr, []) := by
  have hplaceholder : Placeholders.placeholder "$\x7b".toList (quoted expr) = some (expr, []) := by
    rw [Placeholders.placeholder, if_pos (by rfl)]
    have hclose := close_append_brace h
    show (Placeholders.close (expr ++ ['}'])).map _ = _
    rw [hclose]
    rfl
  have hcons : quoted expr = '$' :: '\x7b' :: (expr ++ ['}']) := rfl
  rw [hcons] at hplaceholder ⊢
  rw [Placeholders.find, hplaceholder]

theorem replaceOn_of_none {callback : Str → Option Str} {value : Str}
    (h : Placeholders.find "$\x7b".toList value = none) : replaceOn callback value = some value := by
  rw [replaceOn]
  split
  · rfl
  · next hsome => rw [h] at hsome; cases hsome

theorem replaceOn_of_some {callback : Str → Option Str} {value before expr after : Str}
    (h : Placeholders.find "$\x7b".toList value = some (before, expr, after)) :
    replaceOn callback value = (callback expr).bind fun replacement =>
      (replaceOn callback after).map fun rest => before ++ replacement ++ rest := by
  rw [replaceOn]
  split
  · next hnone => rw [h] at hnone; cases hnone
  · next hsome =>
      rw [h] at hsome
      cases hsome
      rfl

theorem replaceOn_quoted (callback : Str → Option Str) {expr : Str} (h : '}' ∉ expr) :
    replaceOn callback (quoted expr) = callback expr := by
  rw [replaceOn_of_some (find_quoted h), replaceOn_of_none (by rfl)]
  cases callback expr with
  | none => rfl
  | some replacement => exact congrArg some (List.append_nil replacement)

/-- The callback is only asked for what stands between braces. -/
theorem replaceOn_congr {callback other : Str → Option Str}
    (h : ∀ expr, '}' ∉ expr → callback expr = other expr) (value : Str) :
    replaceOn callback value = replaceOn other value := by
  cases hfind : Placeholders.find "$\x7b".toList value with
  | none => rw [replaceOn_of_none hfind, replaceOn_of_none hfind]
  | some found =>
      obtain ⟨before, expr, after⟩ := found
      rw [replaceOn_of_some hfind, replaceOn_of_some hfind, h expr (notMem_of_find hfind),
        replaceOn_congr h after]
termination_by value.length
decreasing_by exact Placeholders.length_find hfind

/-! ## Levels -/

/-- An expression that is neither a chain nor closed within. -/
def IsPart (expr : Str) : Prop := '}' ∉ expr ∧ ¬ "||".toList <:+: expr

instance (expr : Str) : Decidable (IsPart expr) :=
  inferInstanceAs (Decidable ('}' ∉ expr ∧ ¬ "||".toList <:+: expr))

/-- What an expression is written as, or the expression as a value where it throws. -/
def written (P : ElPlatform) (w : ElWorld) (expr : Str) : Str :=
  (Found.text? (evaluate P w expr)).getD (quoted expr)

theorem infix_quoted (expr : Str) : "$\x7b".toList <:+: quoted expr := by
  rw [quoted, List.append_assoc]
  exact (List.prefix_append _ _).isInfix

theorem applyWith_quoted {expr : Str} (h : '}' ∉ expr) (inner : Str → Str) :
    applyWith P w inner (quoted expr) = (callback P w inner expr).getD (quoted expr) := by
  rw [applyWith, if_pos (infix_quoted expr), replaceOn_quoted _ h]

theorem applyWith_of_isPart {expr : Str} (h : IsPart expr) (inner : Str → Str) :
    applyWith P w inner (quoted expr) = written P w expr := by
  rw [applyWith_quoted h.1, callback, if_neg h.2, written]

theorem infix_trim (s : Str) : trim s <:+: s :=
  ((List.rdropWhile_prefix _ _).isInfix).trans (List.dropWhile_suffix _).isInfix

theorem IsPart.within {part expr : Str} (h : IsPart expr) (hpart : part <:+: expr) :
    IsPart part :=
  ⟨fun hmem => h.1 (hpart.subset hmem), fun hbars => h.2 (hbars.trans hpart)⟩

/-- The parts of a chain, with blanks around them. -/
def partsOf (expr : Str) : List Str :=
  let last := (splitText "||".toList expr).getLast?
  if last.any fun last => decide ("::".toList <:+: last) then
    (splitText "||".toList expr).dropLast ++
      ((last.map fun last => (splitText "::".toList last).map trim).getD []).head?.toList
  else splitText "||".toList expr

/-- What a chain gives if it finds nothing. -/
def defaultOf (expr : Str) : Str :=
  let last := (splitText "||".toList expr).getLast?
  if last.any fun last => decide ("::".toList <:+: last) then
    ((last.map fun last => (splitText "::".toList last).map trim).getD []).getLast?.getD
      "no-chain-value-d".toList
  else "no-chain-value".toList

/-- A chain takes a text for a value. -/
def accepts (text : Str) : Bool := text != "bad-expr".toList && !startsWith text "no-".toList

theorem chain_eq (apply : Str → Str) (expr : Str) : chain apply expr =
    (((partsOf expr).map fun str => apply (quoted (trim str))).find? accepts).getD
      (defaultOf expr) := by
  rw [chain, partsOf, defaultOf]
  cases (splitText "||".toList expr).getLast?.any fun last => decide ("::".toList <:+: last) with
  | false => rfl
  | true => rfl

theorem isPart_of_mem_splitText {expr piece : Str} (hbrace : '}' ∉ expr)
    (h : piece ∈ splitText "||".toList expr) : IsPart piece := by
  have hbars : "||".toList ≠ [] := by decide
  have hpiece := mem_pieces_of_mem_splitText h
  exact ⟨fun hmem => hbrace ((infix_of_mem_pieces hbars hpiece).subset hmem),
    not_infix_of_mem_pieces hbars hpiece⟩

theorem isPart_of_mem_partsOf {expr str : Str} (hbrace : '}' ∉ expr) (h : str ∈ partsOf expr) :
    IsPart (trim str) := by
  rw [partsOf] at h
  split_ifs at h
  · rcases List.mem_append.mp h with hinit | hlast
    · exact (isPart_of_mem_splitText hbrace (List.mem_of_mem_dropLast hinit)).within (infix_trim _)
    · cases hgetLast : (splitText "||".toList expr).getLast? with
      | none =>
          rw [hgetLast] at hlast
          cases hlast
      | some last =>
          rw [hgetLast, Option.map_some, Option.getD_some, Option.mem_toList, List.head?_map,
            Option.map_eq_some_iff] at hlast
          obtain ⟨piece, hpiece, rfl⟩ := hlast
          have hmem := mem_pieces_of_mem_splitText (List.mem_of_mem_head? hpiece)
          have hpart := isPart_of_mem_splitText hbrace (List.mem_of_getLast? hgetLast)
          exact ((hpart.within (infix_of_mem_pieces (by decide) hmem)).within
            (infix_trim _)).within (infix_trim _)
  · exact (isPart_of_mem_splitText hbrace h).within (infix_trim _)

/-- What a chain asks `apply` for is no chain. -/
theorem chain_congr {apply other : Str → Str} {expr : Str} (hbrace : '}' ∉ expr)
    (h : ∀ part, IsPart part → apply (quoted part) = other (quoted part)) :
    chain apply expr = chain other expr := by
  rw [chain_eq, chain_eq]
  congr 2
  exact List.map_congr_left fun str hstr => h _ (isPart_of_mem_partsOf hbrace hstr)

theorem applyWith_congr {inner other : Str → Str}
    (h : ∀ part, IsPart part → inner (quoted part) = other (quoted part)) (value : Str) :
    applyWith P w inner value = applyWith P w other value := by
  have hcallback : ∀ expr, '}' ∉ expr → callback P w inner expr = callback P w other expr := by
    intro expr hbrace
    rw [callback, callback, chain_congr hbrace h]
  rw [applyWith, applyWith, replaceOn_congr hcallback]

theorem applyTo_of_isPart {expr : Str} (h : IsPart expr) (depth : Nat) :
    applyTo P w (depth + 1) (quoted expr) = written P w expr :=
  applyWith_of_isPart h _

/-- A value that is one expression and no chain. -/
theorem apply_of_isPart {expr : Str} (h : IsPart expr) :
    apply P w (quoted expr) = written P w expr :=
  applyTo_of_isPart h _

/-- `apply` calls itself for the parts of a chain. -/
theorem apply_eq (value : Str) : apply P w value = applyWith P w (apply P w) value := by
  rw [apply]
  cases value with
  | nil => rw [applyWith, if_neg (by decide)]; rfl
  | cons c value =>
      cases value with
      | nil =>
          have hshort : ¬ "$\x7b".toList <:+: [c] := fun h => Nat.not_succ_le_self 1 h.length_le
          rw [applyWith, if_neg hshort]
          show applyWith P w _ [c] = [c]
          rw [applyWith, if_neg hshort]
      | cons d value =>
          show applyWith P w (applyTo P w (value.length + 1)) _ = _
          refine applyWith_congr (fun part hpart => ?_) _
          rw [applyTo_of_isPart hpart, apply_of_isPart hpart]

/-- A chain as a value of its own. -/
theorem apply_chain {expr : Str} (hbrace : '}' ∉ expr) (hbars : "||".toList <:+: expr) :
    apply P w (quoted expr) =
      (((partsOf expr).map fun str => written P w (trim str)).find? accepts).getD
        (defaultOf expr) := by
  rw [apply_eq, applyWith_quoted hbrace, callback, if_pos hbars, Option.getD_some, chain_eq]
  congr 2
  exact List.map_congr_left fun str hstr => apply_of_isPart (isPart_of_mem_partsOf hbrace hstr)

end GlobalExpressionLanguage

end Otoroshi
