/-
# Text as lists of characters

Every string of the program is a list of characters here, so that a definition
over strings is a structural recursion that also evaluates. The functions are
the platform's own string operations with their documented corner cases: `split`
drops the empty pieces at the end, and `trim` removes every character up to the
space, control characters included.

The second half is the only theory the parsers need. Splitting at a separator is
compositional at that separator, and the dropped trailing pieces cannot be seen
by a consumer that ignores empty pieces.
-/

import Mathlib.Data.List.DropRight
import Mathlib.Data.List.TakeWhile

namespace Otoroshi

/-- A string, character by character. -/
abbrev Str := List Char

instance : LawfulBEq Str := inferInstance

/-- What holds of every element of a list is decided element by element, also where the elements are
of a type of which all values could be tried. -/
theorem forall_mem_of_all {α : Type*} {p : α → Prop} [DecidablePred p] {xs : List α}
    (h : (xs.all fun x => decide (p x)) = true) : ∀ x ∈ xs, p x :=
  fun x hx => of_decide_eq_true (List.all_eq_true.mp h x hx)

/-- The characters `trim` removes: the space and everything below it. -/
def isTrimmed (c : Char) : Bool := c ≤ ' '

/-- `String.trim`. -/
def trim (s : Str) : Str :=
  (s.dropWhile isTrimmed).rdropWhile isTrimmed

/-- `_.trim.isEmpty`, decided without building the trimmed string. -/
def isBlank (s : Str) : Bool := s.all isTrimmed

/-- `split` on one separator character: the pieces between separators, without
the empty pieces at the end. A string without separator is its own only piece,
even when it is empty. -/
def split (separator : Char) (s : Str) : List Str :=
  if separator ∈ s then (s.splitOn separator).rdropWhile List.isEmpty else [s]

/-- `split(separator, 2)`: cut at the first separator only, keeping what follows
as it is, the empty string included. -/
def splitFirst (separator : Char) (s : Str) : Str × Option Str :=
  (s.takeWhile (· != separator),
    if separator ∈ s then some ((s.dropWhile (· != separator)).drop 1) else none)

/-- `startsWith`. -/
def startsWith (s beginning : Str) : Bool := beginning.isPrefixOf s

/-- `endsWith`. -/
def endsWith (s ending : Str) : Bool := ending.isSuffixOf s

/-- `indexOf(character, from)`, with `none` where the platform answers `-1`. -/
def indexOf (s : Str) (c : Char) (start : Nat) : Option Nat :=
  ((s.drop start).findIdx? (· == c)).map (· + start)

/-- `substring(from, until)`. -/
def substring (s : Str) (start stop : Nat) : Str := (s.take stop).drop start

/-- Replace every occurrence of one character, the way `replace` and a
`replaceAll` of an escaped character do. -/
def replaceChar (s : Str) (c : Char) (replacement : Str) : Str :=
  s.flatMap fun d => if d = c then replacement else [d]

/-- `replaceFirst` of a text with no character that a regular expression reads
in its own way. -/
def replaceFirst (s text replacement : Str) : Str :=
  if text.isPrefixOf s then replacement ++ s.drop text.length
  else match s with
    | [] => []
    | c :: rest => c :: replaceFirst rest text replacement

/-- `replace`, with the number of characters that are still to be left out. -/
def replaceSkipping (text replacement : Str) : Nat → Str → Str
  | _, [] => []
  | 0, c :: rest =>
      if text.isPrefixOf (c :: rest) then
        replacement ++ replaceSkipping text replacement (text.length - 1) rest
      else c :: replaceSkipping text replacement 0 rest
  | skipped + 1, _ :: rest => replaceSkipping text replacement skipped rest

/-- `replace` of a text that is not empty, from the left. -/
def replace (s text replacement : Str) : Str := replaceSkipping text replacement 0 s

/-- `Character.isWhitespace`. -/
def isWhitespace (c : Char) : Bool :=
  (0x09 ≤ c.toNat && c.toNat ≤ 0x0D) || (0x1C ≤ c.toNat && c.toNat ≤ 0x20) || c.toNat == 0x1680 ||
    (0x2000 ≤ c.toNat && c.toNat ≤ 0x2006) || (0x2008 ≤ c.toNat && c.toNat ≤ 0x200A) ||
    c.toNat == 0x2028 || c.toNat == 0x2029 || c.toNat == 0x205F || c.toNat == 0x3000

/-- `String.isBlank`. -/
def isAllWhitespace (s : Str) : Bool := s.all isWhitespace

/-! ## Splitting -/

private theorem flatMap_dropTrailing {β : Type*} (f : Str → List β) (hf : f [] = [])
    (pieces : List Str) :
    (pieces.rdropWhile List.isEmpty).flatMap f = pieces.flatMap f := by
  induction pieces using List.reverseRec with
  | nil => rfl
  | append_singleton pieces last ih =>
      by_cases hlast : last.isEmpty
      · have hnil : last = [] := List.isEmpty_iff.mp hlast
        rw [List.rdropWhile_concat_pos _ _ _ hlast, ih]
        simp [hnil, hf]
      · rw [List.rdropWhile_concat_neg _ _ _ hlast]

/-- A consumer that ignores empty pieces sees the same thing whether or not the
trailing ones are dropped. -/
theorem flatMap_split {β : Type*} (f : Str → List β) (hf : f [] = []) (separator : Char)
    (s : Str) : (split separator s).flatMap f = (s.splitOn separator).flatMap f := by
  unfold split
  split
  · exact flatMap_dropTrailing f hf _
  · rename_i hnot
    rw [List.splitOn_eq_singleton hnot]

/-- Splitting is compositional at the separator: what stands on its left never
changes the pieces read on its right, whatever text it is. -/
theorem flatMap_split_append {β : Type*} (f : Str → List β) (hf : f [] = [])
    (separator : Char) (left right : Str) :
    (split separator (left ++ separator :: right)).flatMap f =
      (split separator left).flatMap f ++ (split separator right).flatMap f := by
  rw [flatMap_split f hf, flatMap_split f hf, flatMap_split f hf,
    List.splitOn_append_cons_self, List.flatMap_append]

/-! ## Trimming -/

theorem dropWhile_of_head {s : Str} (h : ∀ c ∈ s.head?, isTrimmed c = false) :
    s.dropWhile isTrimmed = s := by
  cases s with
  | nil => rfl
  | cons c rest => rw [List.dropWhile_cons, h c rfl, if_neg Bool.false_ne_true]

/-- `trim` leaves a text that begins and ends with other characters. -/
theorem trim_append {lead core trail : Str} (hcore : core ≠ [])
    (hlead : ∀ c ∈ lead, isTrimmed c = true)
    (htrail : ∀ c ∈ trail, isTrimmed c = true) (hhead : ∀ c ∈ core.head?, isTrimmed c = false)
    (hlast : ∀ c ∈ core.getLast?, isTrimmed c = false) : trim (lead ++ core ++ trail) = core := by
  have hbeginning : (core ++ trail).dropWhile isTrimmed = core ++ trail := by
    obtain ⟨c, rest, rfl⟩ := List.exists_cons_of_ne_nil hcore
    exact dropWhile_of_head hhead
  have htrail' : ∀ c ∈ trail.reverse, isTrimmed c = true := fun c hc =>
    htrail c (List.mem_reverse.mp hc)
  have hend : core.reverse.dropWhile isTrimmed = core.reverse := by
    apply dropWhile_of_head
    rwa [List.head?_reverse]
  rw [trim, List.append_assoc, List.dropWhile_append_of_pos hlead, hbeginning, List.rdropWhile,
    List.reverse_append, List.dropWhile_append_of_pos htrail', hend, List.reverse_reverse]

theorem head?_trim (s : Str) : ∀ c ∈ (trim s).head?, isTrimmed c = false := by
  intro c hc
  obtain ⟨rest, hrest⟩ := List.rdropWhile_prefix isTrimmed (l := s.dropWhile isTrimmed)
  have hhead : (s.dropWhile isTrimmed).head? = some c := by
    rw [← hrest, List.head?_append]
    exact congrArg (Option.or · rest.head?) (show (trim s).head? = some c from hc)
  have hdropped := List.head?_dropWhile_not isTrimmed s
  rw [hhead] at hdropped
  simpa using hdropped

theorem getLast?_trim (s : Str) : ∀ c ∈ (trim s).getLast?, isTrimmed c = false := by
  intro c hc
  rw [trim, List.rdropWhile, List.getLast?_reverse] at hc
  have hdropped := List.head?_dropWhile_not isTrimmed (s.dropWhile isTrimmed).reverse
  rw [show _ = some c from hc] at hdropped
  simpa using hdropped

/-- `trim` leaves a text that neither begins nor ends with a character it removes. -/
theorem trim_eq_self {s : Str} (hhead : ∀ c ∈ s.head?, isTrimmed c = false)
    (hlast : ∀ c ∈ s.getLast?, isTrimmed c = false) : trim s = s := by
  cases s with
  | nil => rfl
  | cons c rest =>
      have h := @trim_append [] (c :: rest) [] (List.cons_ne_nil _ _) nofun nofun hhead hlast
      rwa [List.nil_append, List.append_nil] at h

@[simp]
theorem trim_trim (s : Str) : trim (trim s) = trim s :=
  trim_eq_self (head?_trim s) (getLast?_trim s)

theorem trim_cons {c : Char} (hc : isTrimmed c = true) (s : Str) : trim (c :: s) = trim s := by
  rw [trim, List.dropWhile_cons, if_pos hc, trim]

theorem trim_append_singleton {c : Char} (hc : isTrimmed c = true) (s : Str) :
    trim (s ++ [c]) = trim s := by
  rw [trim, trim, List.dropWhile_append]
  by_cases hall : (s.dropWhile isTrimmed).isEmpty = true
  · rw [if_pos hall, List.isEmpty_iff.mp hall, List.dropWhile_cons, if_pos hc]
    rfl
  · rw [if_neg hall, List.rdropWhile_concat_pos _ _ _ hc]

theorem length_trim_le (s : Str) : (trim s).length ≤ s.length :=
  (List.rdropWhile_prefix _ _).length_le.trans (List.dropWhile_suffix _).length_le

/-! ## Lower case -/

theorem toNat_toLower (c : Char) : c.toLower.toNat =
    if 65 ≤ c.toNat ∧ c.toNat ≤ 90 then c.toNat + 32 else c.toNat := by
  unfold Char.toLower
  split
  · next h =>
      have hupper : 65 ≤ c.toNat ∧ c.toNat ≤ 90 := h
      have hshift : ('a'.val - 'A'.val).toNat = 32 := rfl
      have hval : c.val.toNat = c.toNat := rfl
      rw [if_pos hupper]
      show (c.val + ('a'.val - 'A'.val)).toNat = c.toNat + 32
      rw [UInt32.toNat_add, hshift, hval]
      omega
  · next h =>
      have hother : ¬ (65 ≤ c.toNat ∧ c.toNat ≤ 90) := h
      rw [if_neg hother]

theorem toLower_toLower (c : Char) : c.toLower.toLower = c.toLower := by
  apply Char.toNat_inj.mp
  rw [toNat_toLower c.toLower, if_neg]
  rw [toNat_toLower]
  split <;> omega

/-- Lower casing gives letters for letters. -/
theorem eq_of_toLower_eq {c d : Char} (hd : d.toNat < 97) (h : c.toLower = d) : c = d := by
  have hnat := congrArg Char.toNat h
  rw [toNat_toLower] at hnat
  apply Char.toNat_inj.mp
  split at hnat <;> omega

end Otoroshi
