/-
# The fields of message signatures

`Signature-Input` maps labels to the components of a message that are signed, and to the
parameters of the signature; `Signature` maps labels to bytes. They are written by
`serialize` functions that put texts together, and read by a parser that goes through the
text character by character.

The name of a component is lower cased when it is written. The component keeps the name it
was given.
-/

import Otoroshi.Foundation.Base64
import Otoroshi.Foundation.Long
import Otoroshi.Foundation.Parsing

namespace Otoroshi

open Stateful TextParser

/-- What the platform knows about characters. -/
structure CharPlatform where
  toLowerCase : Str → Str
  /-- `Character.digit` in base 10 -/
  digit : Char → Option Nat

/-- `Character.isDigit` -/
def CharPlatform.isDigit (P : CharPlatform) (c : Char) : Bool := (P.digit c).isSome

namespace HttpSigStructuredFields

inductive Param
  | string (value : Str)
  | int (value : Long)
  | bytes (value : List UInt8)
  | bool (value : Bool)
  | token (value : Str)
  deriving DecidableEq

structure ComponentId where
  rawName : Str
  params : List (Str × Param) := []
  deriving DecidableEq

structure SignatureInputValue where
  components : List ComponentId
  params : List (Str × Param) := []
  deriving DecidableEq

/-! ## Writing -/

/-- A backslash before the backslashes, and then one before the quotes. -/
def escape (value : Str) : Str :=
  replaceChar (replaceChar value '\\' "\\\\".toList) '"' "\\\"".toList

/-- The flag that is set is written without a value. -/
def serializeParam : Str × Param → Str
  | (k, .string v) => ';' :: (k ++ '=' :: '"' :: (escape v ++ ['"']))
  | (k, .int v) => ';' :: (k ++ '=' :: longText v)
  | (k, .bytes v) => ';' :: (k ++ '=' :: ':' :: (Base64.encode v ++ [':']))
  | (k, .bool v) => ';' :: (k ++ if v then [] else "=?0".toList)
  | (k, .token v) => ';' :: (k ++ '=' :: v)

def serializeParams (params : List (Str × Param)) : Str := params.flatMap serializeParam

variable (P : CharPlatform)

namespace ComponentId

variable (cid : ComponentId)

def name : Str := P.toLowerCase cid.rawName

def serialize : Str := '"' :: (cid.name P ++ '"' :: serializeParams cid.params)

end ComponentId

namespace SignatureInputValue

variable (value : SignatureInputValue)

def serialize : Str :=
  '(' :: (List.intercalate [' '] (value.components.map (·.serialize P)) ++
    ')' :: serializeParams value.params)

end SignatureInputValue

def serializeBytes (v : List UInt8) : Str := ':' :: (Base64.encode v ++ [':'])

/-- `entries.map(k=v).mkString(", ")` -/
def serializeDict {α : Type} (write : α → Str) (entries : List (Str × α)) : Str :=
  List.intercalate ", ".toList (entries.map fun entry => entry.1 ++ '=' :: write entry.2)

def serializeSignatureInputDict (entries : List (Str × SignatureInputValue)) : Str :=
  serializeDict (·.serialize P) entries

def serializeSignatureDict (entries : List (Str × List UInt8)) : Str :=
  serializeDict serializeBytes entries

/-! ## Reading -/

inductive ParseError
  | illegalArgument (message : Str)
  | numberFormat (text : Str)
  | base64 (text : Str)
  deriving DecidableEq

/-- `input` is the whole text, which the messages repeat. -/
def expected (input what rest : Str) : ParseError :=
  .illegalArgument ("expected ".toList ++ what ++ " at offset ".toList ++
    longText (input.length - rest.length : Nat) ++ " in '".toList ++ input ++ "'".toList)

def isSpace (c : Char) : Bool := c == ' ' || c == '\t'

def isKeyChar (c : Char) : Bool :=
  (('a' ≤ c && c ≤ 'z') || ('0' ≤ c && c ≤ '9')) || c == '_' || c == '-' || c == '.' || c == '*'

/-- What ends a token. -/
def endsToken (c : Char) : Bool := ",;) ".toList.contains c

def skipSpaces : TextParser ParseError Unit := modify (List.dropWhile isSpace)

/-- `i += 1` -/
def advance : TextParser ParseError Unit := modify (List.drop 1)

section Parser

variable (input : Str)

def expect (c : Char) : TextParser ParseError Unit := do
  skipSpaces
  let rest ← get
  if rest.head? = some c then advance else throw (expected input ['\'', c, '\''] rest)

def readKey : TextParser ParseError Str := do
  skipSpaces
  let key ← takeWhile isKeyChar
  let rest ← get
  if key.isEmpty then throw (expected input "key".toList rest) else pure key

/-- The characters up to the closing quote. A backslash stands for what follows it, and
for itself at the end of the text. -/
def unescape : Str → Str × Str
  | [] => ([], [])
  | '"' :: rest => ([], '"' :: rest)
  | '\\' :: n :: rest => (n :: (unescape rest).1, (unescape rest).2)
  | c :: rest => (c :: (unescape rest).1, (unescape rest).2)

def readEscaped : TextParser ParseError Str := fun text =>
  (.ok (unescape text).1, (unescape text).2)

def readString : TextParser ParseError Str := do
  skipSpaces
  expect input '"'
  let value ← readEscaped
  expect input '"'
  pure value

def readByteSequence : TextParser ParseError (List UInt8) := do
  skipSpaces
  expect input ':'
  let s ← takeWhile (· != ':')
  expect input ':'
  match Base64.decode s with
  | some bytes => pure bytes
  | none => throw (.base64 s)

def readBoolean : TextParser ParseError Param := do
  advance
  let rest ← get
  match rest with
  | [] => throw (.illegalArgument "unexpected EOF reading boolean".toList)
  | b :: _ =>
      advance
      if b = '0' then pure (.bool false)
      else if b = '1' then pure (.bool true)
      else throw (.illegalArgument ("invalid boolean ?".toList ++ [b]))

def readSign : TextParser ParseError Str := do
  let rest ← get
  if rest.head? = some '-' then
    advance
    pure ['-']
  else
    pure []

def toLong (text : Str) : TextParser ParseError Param :=
  match h : parseLong P.digit text with
  | some n => pure (.int ⟨n, isLong_of_parseLong h⟩)
  | none => throw (.numberFormat text)

def readNumber : TextParser ParseError Param := do
  let sign ← readSign
  let digits ← takeWhile P.isDigit
  toLong P (sign ++ digits)

def readBareItem : TextParser ParseError Param := do
  let rest ← get
  match rest with
  | [] => throw (.illegalArgument "unexpected EOF reading bare-item".toList)
  | c :: _ =>
      if c = '"' then
        let value ← readString input
        pure (.string value)
      else if c = ':' then
        let value ← readByteSequence input
        pure (.bytes value)
      else if c = '?' then readBoolean
      else if c = '-' ∨ P.isDigit c then readNumber P
      else
        let value ← takeWhile fun c => !endsToken c
        pure (.token value)

/-- The body of the loop over parameters. -/
def readParam : TextParser ParseError (Str × Param) := do
  advance
  let k ← readKey input
  let rest ← get
  if rest.head? = some '=' then
    advance
    let item ← readBareItem P input
    pure (k, item)
  else
    pure (k, .bool true)

/-! ## Progress -/

variable {input}

theorem takesAtLeast_skipSpaces : TakesAtLeast 0 skipSpaces :=
  takesAtLeast_modify fun _ => List.dropWhile_suffix _

theorem takesAtLeast_advance : TakesAtLeast 0 advance :=
  takesAtLeast_modify fun _ => List.drop_suffix _ _

theorem takesAtLeast_expect (c : Char) : TakesAtLeast 1 (expect input c) := by
  intro text value rest hrun
  obtain ⟨_, middle, hspaces, hrun⟩ := exists_of_bind hrun
  obtain ⟨ahead, middle', hget, hrun⟩ := exists_of_bind hrun
  cases hget
  have hle := takesAtLeast_skipSpaces text _ _ hspaces
  split at hrun
  · next hhead =>
      cases hrun
      cases middle with
      | nil => cases hhead
      | cons d middle =>
          simp only [List.drop_succ_cons, List.drop_zero, List.length_cons] at hle ⊢
          omega
  · cases hrun

theorem takesAtLeast_readKey : TakesAtLeast 1 (readKey input) := by
  intro text value rest hrun
  obtain ⟨_, middle, hspaces, hrun⟩ := exists_of_bind hrun
  obtain ⟨key, middle', hkey, hrun⟩ := exists_of_bind hrun
  obtain ⟨ahead, middle'', hget, hrun⟩ := exists_of_bind hrun
  cases hget
  have hle := takesAtLeast_skipSpaces text _ _ hspaces
  split at hrun
  · cases hrun
  · next hempty =>
      have hlength : (List.takeWhile isKeyChar middle).length +
          (List.dropWhile isKeyChar middle).length = middle.length := by
        rw [← List.length_append, List.takeWhile_append_dropWhile]
      cases hkey
      cases hrun
      have hpos := List.length_pos_iff.mpr (mt List.isEmpty_iff.mpr hempty)
      omega

theorem length_unescape_le (text : Str) : (unescape text).2.length ≤ text.length := by
  induction text using unescape.induct with
  | case1 => simp [unescape]
  | case2 rest => simp [unescape]
  | case3 n rest ih =>
      simp only [unescape, List.length_cons]
      omega
  | case4 c rest hquote hbackslash ih =>
      rw [unescape]
      · simp only [List.length_cons]
        omega
      · exact hquote
      · exact hbackslash

theorem takesAtLeast_readEscaped : TakesAtLeast 0 readEscaped := by
  intro text value rest hrun
  cases hrun
  exact length_unescape_le text

theorem takesAtLeast_readString : TakesAtLeast 1 (readString input) := by
  apply takesAtLeast_bind_right takesAtLeast_skipSpaces
  intro _
  apply takesAtLeast_bind_left (takesAtLeast_expect '"')
  intro _
  apply takesAtLeast_bind_right takesAtLeast_readEscaped
  intro value
  exact takesAtLeast_bind_left (takesAtLeast_expect '"').zero fun _ => takesAtLeast_pure value

theorem takesAtLeast_readByteSequence : TakesAtLeast 0 (readByteSequence input) := by
  apply takesAtLeast_bind_right takesAtLeast_skipSpaces
  intro _
  apply takesAtLeast_bind_right (takesAtLeast_expect ':').zero
  intro _
  apply takesAtLeast_bind_right (takesAtLeast_takeWhile _)
  intro s
  apply takesAtLeast_bind_right (takesAtLeast_expect ':').zero
  intro _
  split
  · exact takesAtLeast_pure _
  · exact takesAtLeast_throw _

theorem takesAtLeast_readBoolean : TakesAtLeast 0 readBoolean := by
  apply takesAtLeast_bind_right takesAtLeast_advance
  intro _
  apply takesAtLeast_bind_right takesAtLeast_get
  intro rest
  split
  · exact takesAtLeast_throw _
  · apply takesAtLeast_bind_right takesAtLeast_advance
    intro _
    split
    · exact takesAtLeast_pure _
    · split
      · exact takesAtLeast_pure _
      · exact takesAtLeast_throw _

theorem takesAtLeast_readSign : TakesAtLeast 0 readSign := by
  apply takesAtLeast_bind_right takesAtLeast_get
  intro rest
  split
  · exact takesAtLeast_bind_right takesAtLeast_advance fun _ => takesAtLeast_pure _
  · exact takesAtLeast_pure _

theorem takesAtLeast_readNumber : TakesAtLeast 0 (readNumber P) := by
  apply takesAtLeast_bind_right takesAtLeast_readSign
  intro sign
  apply takesAtLeast_bind_right (takesAtLeast_takeWhile _)
  intro digits
  rw [toLong]
  split
  · exact takesAtLeast_pure _
  · exact takesAtLeast_throw _

theorem takesAtLeast_readBareItem : TakesAtLeast 0 (readBareItem P input) := by
  apply takesAtLeast_bind_right takesAtLeast_get
  intro rest
  split
  · exact takesAtLeast_throw _
  · split
    · exact takesAtLeast_bind_left takesAtLeast_readString.zero fun _ => takesAtLeast_pure _
    split
    · exact takesAtLeast_bind_left takesAtLeast_readByteSequence fun _ => takesAtLeast_pure _
    split
    · exact takesAtLeast_readBoolean
    split
    · exact takesAtLeast_readNumber P
    · exact takesAtLeast_bind_left (takesAtLeast_takeWhile _) fun _ => takesAtLeast_pure _

theorem takesAtLeast_readParam : TakesAtLeast 1 (readParam P input) := by
  apply takesAtLeast_bind_right takesAtLeast_advance
  intro _
  apply takesAtLeast_bind_left takesAtLeast_readKey
  intro k
  apply takesAtLeast_bind_right takesAtLeast_get
  intro rest
  split
  · apply takesAtLeast_bind_right takesAtLeast_advance
    intro _
    exact takesAtLeast_bind_left (takesAtLeast_readBareItem P) fun _ => takesAtLeast_pure _
  · exact takesAtLeast_pure _

/-! ## Lists -/

variable (input)

def readParams : TextParser ParseError (List (Str × Param)) :=
  whileDo (fun text => text.head? == some ';') (readParam P input) (takesAtLeast_readParam P)

def skipParams : TextParser ParseError Unit := do
  let _ ← readParams P input
  pure ()

def readComponentId : TextParser ParseError ComponentId := do
  skipSpaces
  let name ← readString input
  let params ← readParams P input
  pure ⟨name, params⟩

/-- The body of the loop over components. -/
def readComponent : TextParser ParseError ComponentId := do
  let cid ← readComponentId P input
  skipSpaces
  pure cid

theorem takesAtLeast_readComponentId : TakesAtLeast 1 (readComponentId P input) := by
  apply takesAtLeast_bind_right takesAtLeast_skipSpaces
  intro _
  apply takesAtLeast_bind_left takesAtLeast_readString
  intro name
  exact takesAtLeast_bind_left takesAtLeast_whileDo fun params => takesAtLeast_pure _

theorem takesAtLeast_readComponent : TakesAtLeast 1 (readComponent P input) := by
  apply takesAtLeast_bind_left (takesAtLeast_readComponentId P input)
  intro cid
  exact takesAtLeast_bind_left takesAtLeast_skipSpaces fun _ => takesAtLeast_pure _

def readComponents : TextParser ParseError (List ComponentId) :=
  whileDo (fun text => !text.isEmpty && text.head? != some ')') (readComponent P input)
    (takesAtLeast_readComponent P input)

def readInnerListWithParams : TextParser ParseError SignatureInputValue := do
  skipSpaces
  expect input '('
  skipSpaces
  let comps ← readComponents P input
  expect input ')'
  let params ← readParams P input
  pure ⟨comps, params⟩

/-- What stands between two entries of a dictionary. -/
def skipComma : TextParser ParseError Unit := do
  skipSpaces
  let rest ← get
  if !rest.isEmpty then
    expect input ','
    skipSpaces
  else
    pure ()

/-- The body of the loop over the entries of a dictionary. -/
def readEntry {α : Type} (item : TextParser ParseError α) : TextParser ParseError (Str × α) := do
  let key ← readKey input
  expect input '='
  let value ← item
  skipComma input
  pure (key, value)

theorem takesAtLeast_skipComma : TakesAtLeast 0 (skipComma input) := by
  apply takesAtLeast_bind_right takesAtLeast_skipSpaces
  intro _
  apply takesAtLeast_bind_right takesAtLeast_get
  intro rest
  split
  · exact takesAtLeast_bind_left (takesAtLeast_expect ',').zero fun _ => takesAtLeast_skipSpaces
  · exact takesAtLeast_pure _

theorem takesAtLeast_readInnerListWithParams :
    TakesAtLeast 0 (readInnerListWithParams P input) := by
  apply takesAtLeast_bind_right takesAtLeast_skipSpaces
  intro _
  apply takesAtLeast_bind_right (takesAtLeast_expect '(').zero
  intro _
  apply takesAtLeast_bind_right takesAtLeast_skipSpaces
  intro _
  apply takesAtLeast_bind_right takesAtLeast_whileDo
  intro comps
  apply takesAtLeast_bind_right (takesAtLeast_expect ')').zero
  intro _
  exact takesAtLeast_bind_left takesAtLeast_whileDo fun params => takesAtLeast_pure _

theorem takesAtLeast_readEntry {α : Type} {item : TextParser ParseError α}
    (hitem : TakesAtLeast 0 item) : TakesAtLeast 1 (readEntry input item) := by
  apply takesAtLeast_bind_left takesAtLeast_readKey
  intro key
  apply takesAtLeast_bind_right (takesAtLeast_expect '=').zero
  intro _
  apply takesAtLeast_bind_right hitem
  intro value
  exact takesAtLeast_bind_left (takesAtLeast_skipComma input) fun _ => takesAtLeast_pure _

/-- The bytes of a signature. Its parameters are ignored. -/
def readSignature : TextParser ParseError (List UInt8) := do
  let bs ← readByteSequence input
  skipParams P input
  pure bs

theorem takesAtLeast_readSignature : TakesAtLeast 0 (readSignature P input) := by
  apply takesAtLeast_bind_right takesAtLeast_readByteSequence
  intro bs
  apply takesAtLeast_bind_right
    (takesAtLeast_bind_left takesAtLeast_whileDo fun _ => takesAtLeast_pure _)
  intro _
  exact takesAtLeast_pure _

def readEntries {α : Type} (item : TextParser ParseError α) (hitem : TakesAtLeast 0 item) :
    TextParser ParseError (List (Str × α)) :=
  whileDo (fun text => !text.isEmpty) (readEntry input item) (takesAtLeast_readEntry input hitem)

/-- The entries of a dictionary, to the end of the text. -/
def readDict {α : Type} (item : TextParser ParseError α) (hitem : TakesAtLeast 0 item) :
    TextParser ParseError (List (Str × α)) := do
  skipSpaces
  readEntries input item hitem

end Parser

def parseSignatureInputDict (raw : Str) : Except ParseError (List (Str × SignatureInputValue)) :=
  (readDict raw (readInnerListWithParams P raw)
    (takesAtLeast_readInnerListWithParams P raw) raw).1

def parseSignatureDict (raw : Str) : Except ParseError (List (Str × List UInt8)) :=
  (readDict raw (readSignature P raw) (takesAtLeast_readSignature P raw) raw).1

end HttpSigStructuredFields

end Otoroshi
