/-
# Chains

A chain is to give the value of its first part that has one, and its default where none does. What a
part is written as does not tell: a value may begin with `no-` as the texts for what is absent do, and
a part that throws is written as itself. Its default is read from behind the last `::`.

`apply_chain_iff` says of every chain when its value is the right one.
-/

import Otoroshi.El.Values

namespace Otoroshi

namespace GlobalExpressionLanguage

/-- A chain of at least two parts. No part has `||` or a closing brace in it, and the default begins
behind the first `::` of the last part. -/
structure Chain where
  first : Str
  middle : List Str := []
  last : Str
  default : Str
  isPart : ∀ text ∈ first :: last :: default :: middle, IsPart text
  last_plain : ¬ "::".toList <:+: last

namespace Chain

variable (ch : Chain)

def parts : List Str := ch.first :: (ch.middle ++ [ch.last])

/-- `e1 || e2 || ... || en :: default` -/
def text : Str := List.intercalate " || ".toList ch.parts ++ " :: ".toList ++ ch.default

/-- The last part with the default behind it. -/
def lastPiece : Str := ' ' :: ch.last ++ ' ' :: ("::".toList ++ ' ' :: ch.default)

/-- The text behind the first bars. -/
def behind : List Str → Str
  | [] => ch.lastPiece
  | part :: parts => ' ' :: part ++ ' ' :: ("||".toList ++ behind parts)

theorem intercalate_eq (part : Str) (parts : List Str) :
    List.intercalate " || ".toList (part :: (parts ++ [ch.last])) ++ " :: ".toList ++ ch.default =
      part ++ ' ' :: ("||".toList ++ ch.behind parts) := by
  induction parts generalizing part with
  | nil =>
      rw [List.nil_append, List.intercalate_cons_cons, List.intercalate_singleton, behind, lastPiece]
      simp
  | cons next parts ih =>
      rw [List.cons_append, List.intercalate_cons_cons, behind, List.append_assoc,
        List.append_assoc, ← List.append_assoc _ " :: ".toList, ih next]
      simp

theorem text_eq : ch.text = ch.first ++ ' ' :: ("||".toList ++ ch.behind ch.middle) :=
  ch.intercalate_eq ch.first ch.middle

variable {ch}

/-- Blanks join no separator. -/
theorem not_infix_blank {separator before after : Str} (hblank : ' ' ∉ separator)
    (hbefore : ¬ separator <:+: before) (hafter : ¬ separator <:+: after) :
    ¬ separator <:+: before ++ ' ' :: after := by
  intro h
  exact (infix_append_cons hblank h).elim hbefore hafter

theorem not_infix_cons_blank {separator after : Str} (hblank : ' ' ∉ separator)
    (hseparator : separator ≠ []) (hafter : ¬ separator <:+: after) :
    ¬ separator <:+: ' ' :: after :=
  @not_infix_blank separator [] after hblank (mt List.infix_nil.mp hseparator) hafter

theorem bars_blank {before after : Str} (hbefore : ¬ "||".toList <:+: before)
    (hafter : ¬ "||".toList <:+: after) : ¬ "||".toList <:+: before ++ ' ' :: after :=
  not_infix_blank (by decide) hbefore hafter

theorem isPart_first : IsPart ch.first := ch.isPart _ List.mem_cons_self

theorem isPart_last : IsPart ch.last := ch.isPart _ (by simp)

theorem isPart_default : IsPart ch.default := ch.isPart _ (by simp)

theorem isPart_of_mem_middle {part : Str} (h : part ∈ ch.middle) : IsPart part :=
  ch.isPart _ (by simp [h])

theorem not_bars_lastPiece : ¬ "||".toList <:+: ch.lastPiece := by
  have hstart : ¬ "||".toList <:+: ' ' :: ch.last :=
    not_infix_cons_blank (by decide) (by decide) isPart_last.2
  exact bars_blank hstart (bars_blank (by decide) isPart_default.2)

/-- A part between blanks is a piece. -/
theorem pieces_part (start part : Str) (hstart : ¬ "||".toList <:+: start ++ part) (after : Str) :
    pieces "||".toList (start ++ part ++ ' ' :: ("||".toList ++ after)) =
      (start ++ part ++ [' ']) :: pieces "||".toList after := by
  have hbefore : ¬ "||".toList <:+: start ++ part ++ [' '] ++ "||".toList.dropLast := by
    rw [List.append_assoc _ [' ']]
    exact bars_blank hstart (by decide)
  have hcut := pieces_append (by decide) hbefore after
  rwa [List.append_assoc _ [' '], List.singleton_append] at hcut

theorem pieces_behind {parts : List Str} (h : ∀ part ∈ parts, IsPart part) :
    pieces "||".toList (ch.behind parts) =
      parts.map (fun part => ' ' :: part ++ [' ']) ++ [ch.lastPiece] := by
  induction parts with
  | nil => exact pieces_eq_singleton not_bars_lastPiece
  | cons part parts ih =>
      have hpart : ¬ "||".toList <:+: [' '] ++ part :=
        not_infix_cons_blank (by decide) (by decide) (h part List.mem_cons_self).2
      rw [List.map_cons, List.cons_append, ← ih fun other hother =>
        h other (List.mem_cons_of_mem _ hother)]
      exact pieces_part [' '] part hpart _

theorem splitText_text : splitText "||".toList ch.text =
    (ch.first ++ [' ']) ::
      (ch.middle.map (fun part => ' ' :: part ++ [' ']) ++ [ch.lastPiece]) := by
  have hpieces : pieces "||".toList ch.text = (ch.first ++ [' ']) ::
      (ch.middle.map (fun part => ' ' :: part ++ [' ']) ++ [ch.lastPiece]) := by
    rw [text_eq, ← pieces_behind fun part hpart => isPart_of_mem_middle hpart]
    exact pieces_part [] ch.first isPart_first.2 _
  rw [splitText_eq_pieces, hpieces]
  intro piece hpiece
  rw [hpieces, ← List.cons_append, List.getLast?_concat] at hpiece
  cases hpiece
  exact List.cons_ne_nil _ _

/-- What is read as the default: the last piece that is not empty, without the blanks around it. -/
def readDefault (default : Str) : Str :=
  trim ((splitText "::".toList (' ' :: default)).getLast?.getD [])

theorem exists_splitText_blank (s : Str) :
    ∃ piece others, splitText "::".toList (' ' :: s) = (' ' :: piece) :: others ∧
      (pieces "::".toList (' ' :: s)).rdropWhile List.isEmpty = (' ' :: piece) :: others := by
  obtain ⟨piece, others, hpieces⟩ := exists_pieces_eq_cons "::".toList s
  have hblank : pieces "::".toList (' ' :: s) = (' ' :: piece) :: others := by
    have hbegins : ¬ "::".toList <+: ' ' :: s := fun h =>
      absurd (List.cons_prefix_cons.mp h).1 (by decide)
    rw [pieces_cons_of_not hbegins, hpieces, ontoFirst_cons]
  have hdropped := rdropWhile_cons_of_ne_nil (List.cons_ne_nil ' ' piece) others
  by_cases hcolons : "::".toList <:+: ' ' :: s
  · rw [splitText, if_pos hcolons, hblank, hdropped]
    exact ⟨_, _, rfl, rfl⟩
  · rw [splitText, if_neg hcolons, pieces_eq_singleton hcolons,
      rdropWhile_cons_of_ne_nil (List.cons_ne_nil ' ' s), List.rdropWhile_nil]
    exact ⟨_, _, rfl, rfl⟩

theorem splitText_lastPiece : splitText "::".toList ch.lastPiece =
    (' ' :: ch.last ++ [' ']) :: splitText "::".toList (' ' :: ch.default) := by
  have hbefore : ¬ "::".toList <:+: (' ' :: ch.last ++ [' ']) ++ "::".toList.dropLast := by
    rw [List.append_assoc]
    exact not_infix_blank (by decide)
      (not_infix_cons_blank (by decide) (by decide) ch.last_plain) (by decide)
  have hpiece : ch.lastPiece =
      (' ' :: ch.last ++ [' ']) ++ ("::".toList ++ ' ' :: ch.default) := by
    rw [List.append_assoc]
    rfl
  have hcolons : "::".toList <:+: ch.lastPiece := by
    rw [hpiece]
    exact ⟨_, _, List.append_assoc ..⟩
  obtain ⟨piece, others, hsplit, hdropped⟩ := exists_splitText_blank ch.default
  have hne : ' ' :: ch.last ++ [' '] ≠ [] := List.cons_ne_nil _ _
  rw [splitText, if_pos hcolons, hpiece, pieces_append (by decide) hbefore,
    rdropWhile_cons_of_ne_nil hne, hdropped, hsplit]

theorem getLast?_splitText_text : (splitText "||".toList ch.text).getLast? = some ch.lastPiece := by
  rw [splitText_text, ← List.cons_append, List.getLast?_concat]

theorem hasDefaultValue_text :
    ((splitText "||".toList ch.text).getLast?.any fun last => decide ("::".toList <:+: last)) =
      true := by
  rw [getLast?_splitText_text, Option.any_some, decide_eq_true_eq]
  exact ⟨' ' :: ch.last ++ [' '], ' ' :: ch.default, by simp [lastPiece]⟩

/-- The parts of the chain are evaluated one after the other, -/
theorem trim_partsOf : (partsOf ch.text).map trim = ch.parts.map trim := by
  have hblank : isTrimmed ' ' = true := by decide
  have hpart : ∀ part : Str, trim (' ' :: (part ++ [' '])) = trim part := fun part => by
    rw [trim_cons hblank, trim_append_singleton hblank]
  rw [partsOf, if_pos hasDefaultValue_text, getLast?_splitText_text, splitText_text,
    ← List.cons_append, List.dropLast_concat, Option.map_some, Option.getD_some,
    splitText_lastPiece]
  simp [parts, trim_append_singleton hblank, hpart, Function.comp_def]

/-- and then the default is read. -/
theorem defaultOf_text : defaultOf ch.text = readDefault ch.default := by
  obtain ⟨piece, others, hsplit, -⟩ := exists_splitText_blank ch.default
  rw [defaultOf, if_pos hasDefaultValue_text, getLast?_splitText_text, Option.map_some,
    Option.getD_some, splitText_lastPiece, readDefault, hsplit, List.map_cons, List.map_cons,
    List.getLast?_cons_cons, ← List.map_cons, List.getLast?_map,
    List.getLast?_eq_some_getLast (List.cons_ne_nil _ _)]
  rfl

theorem readDefault_eq_iff (default : Str) :
    readDefault default = default ↔ ¬ "::".toList <:+: default ∧ trim default = default := by
  have hblank : isTrimmed ' ' = true := by decide
  by_cases hcolons : "::".toList <:+: default
  · refine ⟨fun heq => ?_, fun h => absurd hcolons h.1⟩
    exfalso
    have hinside := hcolons.trans (List.suffix_cons ' ' default).isInfix
    obtain ⟨piece, others, hsplit, hdropped⟩ := exists_splitText_blank default
    rw [readDefault, hsplit, List.getLast?_eq_some_getLast (List.cons_ne_nil _ _),
      Option.getD_some] at heq
    have hmem : ((' ' :: piece) :: others).getLast (List.cons_ne_nil _ _) ∈
        pieces "::".toList (' ' :: default) := by
      apply (List.rdropWhile_prefix List.isEmpty _).subset
      rw [hdropped]
      exact List.getLast_mem _
    have hshorter := length_le_of_mem_pieces (by decide) hinside hmem
    have htrim := length_trim_le (((' ' :: piece) :: others).getLast (List.cons_ne_nil _ _))
    rw [heq] at htrim
    have htwo : "::".toList.length = 2 := rfl
    rw [htwo, List.length_cons] at hshorter
    omega
  · have hnone : ¬ "::".toList <:+: ' ' :: default :=
      not_infix_cons_blank (by decide) (by decide) hcolons
    rw [readDefault, splitText, if_neg hnone, List.getLast?_singleton, Option.getD_some,
      trim_cons hblank]
    exact (and_iff_right hcolons).symm

theorem brace_notMem_text : '}' ∉ ch.text := by
  have hbehind : ∀ parts : List Str, (∀ part ∈ parts, IsPart part) → '}' ∉ ch.behind parts := by
    intro parts h
    induction parts with
    | nil =>
        have hlast : '}' ∉ ch.last := isPart_last.1
        have hdefault : '}' ∉ ch.default := isPart_default.1
        simp [behind, lastPiece, hlast, hdefault]
    | cons part parts ih =>
        have hpart := (h part List.mem_cons_self).1
        have hlater := ih fun other hother => h other (List.mem_cons_of_mem _ hother)
        simp [behind, hpart, hlater]
  have hfirst : '}' ∉ ch.first := isPart_first.1
  have hmiddle := hbehind ch.middle fun part hpart => isPart_of_mem_middle hpart
  rw [text_eq]
  simp [hfirst, hmiddle]

theorem bars_infix_text : "||".toList <:+: ch.text :=
  ⟨ch.first ++ [' '], ch.behind ch.middle, by rw [text_eq]; simp⟩

end Chain

variable (P : ElPlatform) (w : ElWorld)

/-- The value of a part that has one. -/
def denotes (part : Str) : Option Str :=
  match evaluate P w (trim part) with
  | some (.value text) => some text
  | _ => none

/-- What a chain is to give. -/
def firstDefined (ch : Chain) : Str := (ch.parts.findSome? (denotes P w)).getD ch.default

/-- No part is taken for a value. -/
def NoneAccepted (parts : List Str) : Prop :=
  ∀ part ∈ parts, accepts (written P w (trim part)) = false

/-- The chain gives what it is to give: the first part that has a value or throws has a value that is
accepted, or there is none and the default is read as it is. Apart from that it can only be right by
chance, where another text of the chain is the same. -/
def Right (default : Str) : List Str → Prop
  | [] => ¬ "::".toList <:+: default ∧ trim default = default
  | part :: parts =>
      match evaluate P w (trim part) with
      | some (.value text) =>
          accepts text = true ∨ NoneAccepted P w parts ∧ Chain.readDefault default = text
      | some .thrown => parts.findSome? (denotes P w) = some (quoted (trim part))
      | _ => Right default parts

variable {P w}

theorem accepts_quoted (expr : Str) : accepts (quoted expr) = true := by
  have hcons : quoted expr = '$' :: '\x7b' :: (expr ++ ['}']) := rfl
  rw [accepts, hcons, Bool.and_eq_true, bne_iff_ne]
  refine ⟨fun h => absurd (List.cons.inj h).1 (by decide), rfl⟩

theorem written_of_value {expr text : Str} (h : evaluate P w expr = some (.value text)) :
    written P w expr = text := by
  rw [written, h]
  rfl

theorem written_of_thrown {expr : Str} (h : evaluate P w expr = some .thrown) :
    written P w expr = quoted expr := by
  rw [written, h]
  rfl

/-- What is absent is not accepted. -/
theorem accepts_of_absent {expr what : Str} (h : evaluate P w expr = some (.absent what)) :
    accepts (written P w expr) = false := by
  rw [written, h]
  rfl

theorem accepts_of_none {expr : Str} (h : evaluate P w expr = none) :
    accepts (written P w expr) = false := by
  rw [written, h]
  rfl

/-- A text that is not accepted is only found as the default. -/
theorem find_eq_iff {parts : List Str} {text default : Str} (htext : accepts text = false) :
    ((parts.map fun part => written P w (trim part)).find? accepts).getD default = text ↔
      NoneAccepted P w parts ∧ default = text := by
  cases hfind : (parts.map fun part => written P w (trim part)).find? accepts with
  | none =>
      have hnone : NoneAccepted P w parts := by
        intro part hpart
        rw [List.find?_eq_none] at hfind
        simpa using hfind _ (List.mem_map_of_mem hpart)
      rw [Option.getD_none]
      exact (and_iff_right hnone).symm
  | some found =>
      have hfound := List.find?_some hfind
      obtain ⟨part, hpart, hwritten⟩ := List.mem_map.mp (List.mem_of_find?_eq_some hfind)
      rw [Option.getD_some]
      constructor
      · intro heq
        rw [heq, htext] at hfound
        cases hfound
      · intro h
        have hnone := h.1 part hpart
        rw [hwritten, hfound] at hnone
        cases hnone

theorem right_iff {default : Str} (hdefault : '}' ∉ default) (parts : List Str) :
    ((parts.map fun part => written P w (trim part)).find? accepts).getD
        (Chain.readDefault default) = (parts.findSome? (denotes P w)).getD default ↔
      Right P w default parts := by
  induction parts with
  | nil => exact Chain.readDefault_eq_iff default
  | cons part parts ih =>
      rw [List.map_cons, List.findSome?_cons, Right, denotes]
      cases hevaluate : evaluate P w (trim part) with
      | none => rw [List.find?_cons_of_neg (by rw [accepts_of_none hevaluate]; decide)]; exact ih
      | some found =>
          cases found with
          | value text =>
              rw [written_of_value hevaluate]
              cases haccepts : accepts text with
              | true =>
                  rw [List.find?_cons_of_pos haccepts]
                  exact iff_of_true rfl (Or.inl haccepts)
              | false =>
                  rw [List.find?_cons_of_neg (by rw [haccepts]; decide)]
                  have hnot : ¬ accepts text = true := by rw [haccepts]; decide
                  exact (find_eq_iff haccepts).trans (or_iff_right hnot).symm
          | absent what =>
              rw [List.find?_cons_of_neg (by rw [accepts_of_absent hevaluate]; decide)]
              exact ih
          | thrown =>
              rw [written_of_thrown hevaluate, List.find?_cons_of_pos (accepts_quoted _)]
              simp only [Option.getD_some]
              cases hfind : parts.findSome? (denotes P w) with
              | none =>
                  refine iff_of_false (fun heq => hdefault ?_) (by simp)
                  rw [Option.getD_none] at heq
                  rw [← heq]
                  exact List.mem_append_right _ List.mem_cons_self
              | some text => exact eq_comm.trans (by simp)

/-- When a chain gives the value of its first part that has one, or its default. -/
theorem apply_chain_iff (P : ElPlatform) (w : ElWorld) (ch : Chain) :
    apply P w (quoted ch.text) = firstDefined P w ch ↔ Right P w ch.default ch.parts := by
  have hparts : (partsOf ch.text).map (fun str => written P w (trim str)) =
      ch.parts.map fun part => written P w (trim part) := by
    have htrim : (partsOf ch.text).map trim = ch.parts.map trim := Chain.trim_partsOf
    have hmap := congrArg (List.map (written P w)) htrim
    rwa [List.map_map, List.map_map] at hmap
  rw [apply_chain Chain.brace_notMem_text Chain.bars_infix_text, hparts, Chain.defaultOf_text,
    firstDefined]
  exact right_iff Chain.isPart_default.1 ch.parts

/-- The chain `req.headers.Cache-Control || req.headers.Age :: none`. -/
def cacheChain : Chain where
  first := "req.headers.Cache-Control".toList
  last := "req.headers.Age".toList
  default := "none".toList
  isPart := by decide
  last_plain := by decide

/-- A client that sends `no-cache`. -/
def cacheRequest : ElWorld where
  req := some { headers := fun name =>
    if name = "Cache-Control".toList then some "no-cache".toList else none }

/-- The header of the client is passed over. -/
theorem exists_value_passed_over :
    firstDefined plainPlatform cacheRequest cacheChain = "no-cache".toList ∧
      apply plainPlatform cacheRequest (quoted cacheChain.text) = "none".toList := by
  refine ⟨by decide +kernel, ?_⟩
  rw [apply_chain Chain.brace_notMem_text Chain.bars_infix_text]
  decide +kernel

end GlobalExpressionLanguage

end Otoroshi
