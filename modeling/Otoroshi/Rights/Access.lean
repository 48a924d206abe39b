/-
# Accesses to tenants and teams

An administrator is given accesses: a pattern of tenant or team names, with the
permissions to read and to write. Names are lower cased and trimmed. A pattern is
a text in which a star stands for any characters; `matches` gives it to the pool
of compiled patterns, which reads everything else in it as a regular expression.

`covers` compares two accesses instead. A requested pattern with a star has to be
my own, any other one is taken for a plain name that my pattern has to match.

The pool answers a text with the pattern kept under it, or with a syntax error.
All results hold for any pool; `freshPool` is one that nothing else was put in.
-/

import Otoroshi.Foundation.Fallible
import Otoroshi.Foundation.Json
import Otoroshi.Utils.RegexPool

namespace Otoroshi.Rights

/-- What comes from the platform: lower casing, which keeps the star, and
`Json.parse`, with `none` where it throws. -/
structure Platform where
  toLowerCase : Str → Str
  toLowerCase_star : toLowerCase "*".toList = "*".toList
  parse : Str → Option JsValue

/-- A pool that only wildcard expressions were put in. -/
def freshPool (E : RegexEngine) : Pool E := fun text =>
  RegexPool.Call.ownResult E (.apply text)

variable (P : Platform) {E : RegexEngine} (pool : Pool E)

/-- `text.toLowerCase.trim`. -/
def Platform.normalized (text : Str) : Str := trim (P.toLowerCase text)

/-! ## Ids -/

/-- The id of a tenant or of a team. -/
structure AccessId where
  rawValue : Str
  deriving DecidableEq

abbrev TenantId := AccessId

abbrev TeamId := AccessId

namespace AccessId

def value (id : AccessId) : Str := P.normalized id.rawValue

/-- `TenantId(value)` and `TeamId(value)`. -/
def apply (value : Str) : AccessId := ⟨P.normalized value⟩

/-- `TenantId.all` and `TeamId.all`. -/
def all : AccessId := AccessId.apply P "*".toList

def default : AccessId := AccessId.apply P "default".toList

/-- A name without a star. -/
def Plain (id : AccessId) : Prop := '*' ∉ id.value P

theorem value_all : (all P).value P = "*".toList := by
  have hstar : P.normalized "*".toList = "*".toList := by
    rw [Platform.normalized, P.toLowerCase_star]
    decide
  rw [value, all, apply, hstar, hstar]

theorem Plain.ne_all {id : AccessId} (h : id.Plain P) : id ≠ all P := by
  intro hid
  rw [Plain, hid, value_all] at h
  exact h (by decide)

end AccessId

/-! ## Accesses -/

/-- An access to tenants or to teams. -/
structure Access where
  value : Str
  canRead : Bool
  canWrite : Bool
  deriving DecidableEq

abbrev TenantAccess := Access

abbrev TeamAccess := Access

/-- The test `matches` makes of a pattern and an id. -/
def patternMatches (pattern : Str) (id : AccessId) : Except JvmException Bool :=
  if pattern = "*".toList ∨ id = AccessId.all P then return true
  else poolMatches pool pattern (id.value P)

theorem patternMatches_star (id : AccessId) :
    patternMatches P pool "*".toList id = .ok true := by
  rw [patternMatches, if_pos (.inl rfl), pure_eq_ok]

theorem patternMatches_all (pattern : Str) :
    patternMatches P pool pattern (AccessId.all P) = .ok true := by
  rw [patternMatches, if_pos (.inr rfl), pure_eq_ok]

namespace Access

/-- `TenantAccess(value, canRead, canWrite)` and `TeamAccess(..)`. -/
def ofValue (value : Str) (canRead canWrite : Bool) : Access :=
  ⟨P.normalized value, canRead, canWrite⟩

/-- `TenantAccess(raw)` and `TeamAccess(raw)`: a name, and its permissions behind
a colon. A write permission comes with a read permission only. -/
def ofRaw (text : Str) : Access :=
  let raw := P.normalized text
  if ':' ∈ raw then
    let parts := (P.toLowerCase raw).splitOn ':'
    let permissions := parts.getLastD []
    let canRead := permissions != "not".toList && permissions.contains 'r'
    let canWrite := permissions != "not".toList && permissions.contains 'w'
    ofValue P (P.normalized (parts.headD [])) canRead (canRead && canWrite)
  else ofValue P (P.normalized raw) true true

def wildcard (access : Access) : Bool := access.value == "*".toList

def canReadWrite (access : Access) : Bool := access.canRead && access.canWrite

/-- `matches`. -/
def matchesId (access : Access) (id : AccessId) : Except JvmException Bool :=
  patternMatches P pool access.value id

theorem matchesId_of_wildcard {access : Access} (h : access.wildcard = true) (id : AccessId) :
    access.matchesId P pool id = .ok true := by
  rw [wildcard, beq_iff_eq] at h
  rw [matchesId, h, patternMatches_star]

/-- Two ids of one value are matched alike, unless one of them is the id of all. -/
theorem matchesId_congr (access : Access) {first second : AccessId}
    (hfirst : first ≠ AccessId.all P) (hsecond : second ≠ AccessId.all P)
    (hvalue : first.value P = second.value P) :
    access.matchesId P pool first = access.matchesId P pool second := by
  rw [matchesId, matchesId, patternMatches, patternMatches, hvalue]
  simp only [hfirst, hsecond, or_false]

end Access

namespace AccessCoverage

def coversValue (mine requested : Str) : Except JvmException Bool :=
  if mine = "*".toList then return true
  else if '*' ∈ requested then return mine == requested
  else poolMatches pool mine requested

def coversPermissions (mine requested : Bool × Bool) : Bool :=
  (!requested.1 || mine.1) && (!requested.2 || mine.2)

end AccessCoverage

/-- `covers`. -/
def Access.covers (mine other : Access) : Except JvmException Bool :=
  AccessCoverage.coversValue pool mine.value other.value <&&>
    return AccessCoverage.coversPermissions (mine.canRead, mine.canWrite)
      (other.canRead, other.canWrite)

theorem Access.covers_eq_true_iff (mine other : Access) :
    mine.covers pool other = .ok true ↔
      AccessCoverage.coversValue pool mine.value other.value = .ok true ∧
        (other.canRead = true → mine.canRead = true) ∧
        (other.canWrite = true → mine.canWrite = true) := by
  rw [Access.covers, and_eq_ok_true, pure_eq_ok, Except.ok.injEq,
    AccessCoverage.coversPermissions]
  cases mine.canRead <;> cases mine.canWrite <;> cases other.canRead <;>
    cases other.canWrite <;> simp

end Otoroshi.Rights
