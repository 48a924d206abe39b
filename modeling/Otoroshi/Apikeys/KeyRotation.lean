/-
# Rotation of api key secrets

An api key whose rotation is enabled changes its secret every so often. During
the grace period before the change the next secret is published on the key,
where it is accepted as well, and when the period is over it becomes the secret.

`keyRotation` is evaluated when the key is used, with a copy of the key that was
read some time before. Between evaluations two stores hold the state: the stored
key, and a record with the start of the period, which expires by itself. `effect`
says which of four things an evaluation does to the stored key, and
`apikey_run` that it does nothing else.
-/

import Otoroshi.Foundation.Long
import Otoroshi.Foundation.Stateful

namespace Otoroshi

/-- The rotation settings of a key, with the published next secret. -/
structure ApiKeyRotation where
  enabled : Bool := false
  /-- in hours -/
  rotationEvery : Int := 31 * 24
  /-- in hours -/
  gracePeriod : Int := 7 * 24
  nextSecret : Option Str := none
  deriving DecidableEq

/-- A key. `rest` stands for the fields the rotation copies and never reads. -/
structure ApiKey where
  clientId : Str
  clientSecret : Str
  rotation : ApiKeyRotation
  rest : Str
  deriving DecidableEq

/-- What an evaluation answers: the end of the period, and the time left. -/
structure ApiKeyRotationInfo where
  rotationAt : Int
  remaining : Int
  deriving DecidableEq

/-- The alerts of the rotation. -/
inductive RotationAlert
  | secretWillRotate (apikey : ApiKey)
  | secretHasRotated (oldApikey apikey : ApiKey)
  deriving DecidableEq

/-- Date arithmetic that leaves the range of instants throws. -/
inductive RotationException
  | arithmetic
  deriving DecidableEq

/-- The record of a period, with the time it expires at. -/
structure RotationRecord where
  start : Int
  expiresAt : Int
  deriving DecidableEq

/-- The stored key, its record, and the alerts sent so far. -/
structure RotationState where
  apikey : ApiKey
  record : Option RotationRecord
  alerts : List RotationAlert
  deriving DecidableEq

abbrev RotationM (α : Type) := Stateful RotationState RotationException α

namespace ApiKeyRotationHelper

/-- `instant.plus(millis)`. -/
def plus (instant millis : Int) : Except RotationException Int :=
  if isLong (instant + millis) then .ok (instant + millis) else .error .arithmetic

/-- `instant.minus(millis)`. -/
def minus (instant millis : Int) : Except RotationException Int :=
  if isLong (instant - millis) then .ok (instant - millis) else .error .arithmetic

/-- The end of a period. -/
def endOf (start : Int) (rotation : ApiKeyRotation) : Except RotationException Int :=
  plus start (wrapLong (rotation.rotationEvery * 3600000))

/-- The start of the grace period. -/
def startGraceOf (endAt : Int) (rotation : ApiKeyRotation) : Except RotationException Int :=
  minus endAt (wrapLong (rotation.gracePeriod * 3600000))

def info (endAt now : Int) : ApiKeyRotationInfo := ⟨endAt, wrapLong (endAt - now)⟩

def beforeGracePeriod (start startGrace endAt now : Int) : Bool :=
  start < now && now < startGrace && now < endAt

def inGracePeriod (start startGrace endAt now : Int) : Bool :=
  start < now && startGrace < now && now < endAt

def afterGracePeriod (start startGrace endAt now : Int) : Bool :=
  start < now && startGrace < now && endAt < now

/-- The start in the record, unless it has expired. -/
def RotationRecord.startAt (record : Option RotationRecord) (now : Int) : Option Int :=
  (record.filter fun record => now ≤ record.expiresAt).map (·.start)

def getRecord (now : Int) : RotationM (Option Int) := fun state =>
  (.ok (RotationRecord.startAt state.record now), state)

/-- A record lives five minutes longer than its period. -/
def setRecord (now : Int) (rotation : ApiKeyRotation) : RotationM Unit :=
  Stateful.modify fun state => { state with
    record := some ⟨now,
      wrapLong (now + wrapLong (rotation.rotationEvery * 60 * 60 * 1000 + 5 * 60 * 1000))⟩ }

def save (apikey : ApiKey) : RotationM Unit :=
  Stateful.modify fun state => { state with apikey }

def sendAlert (alert : RotationAlert) : RotationM Unit :=
  Stateful.modify fun state => { state with alerts := alert :: state.alerts }

/-- Date arithmetic in an evaluation. -/
def compute (instant : Except RotationException Int) : RotationM Int :=
  match instant with
  | .ok value => pure value
  | .error e => Stateful.throw e

theorem compute_ok (value : Int) (state : RotationState) :
    compute (.ok value) state = (.ok value, state) := rfl

/-- `keyRotation` at a time, with the copy of the key that was read and the token
that is drawn if one is needed. -/
def keyRotation (now : Int) (token : Str) (apiKey : ApiKey) :
    RotationM (Option ApiKeyRotationInfo) :=
  if apiKey.rotation.enabled then do
    match ← getRecord now with
    | none => do
        let newApk := { apiKey with rotation := { apiKey.rotation with nextSecret := none } }
        let endAt ← compute (endOf now apiKey.rotation)
        setRecord now newApk.rotation
        save newApk
        pure (some (info endAt now))
    | some start => do
        let endAt ← compute (endOf start apiKey.rotation)
        let startGrace ← compute (startGraceOf endAt apiKey.rotation)
        if beforeGracePeriod start startGrace endAt now then
          pure (some (info endAt now))
        else if inGracePeriod start startGrace endAt now then do
          let newApk := { apiKey with
            rotation := { apiKey.rotation with
              nextSecret := apiKey.rotation.nextSecret.or (some token) } }
          sendAlert (.secretWillRotate newApk)
          save newApk
          pure (some (info endAt now))
        else if afterGracePeriod start startGrace endAt now then do
          let newApk := { apiKey with
            clientSecret := apiKey.rotation.nextSecret.getD token
            rotation := { apiKey.rotation with nextSecret := none } }
          sendAlert (.secretHasRotated apiKey newApk)
          setRecord now newApk.rotation
          save newApk
          pure (some (info endAt now))
        else pure (some (info endAt now))
  else pure none

end ApiKeyRotationHelper

open ApiKeyRotationHelper

/-! ## Evaluations -/

/-- One evaluation: when it runs, on which copy of the key, and the token the
generator gives it. -/
structure Evaluation where
  now : Int
  apiKey : ApiKey
  token : Str
  deriving DecidableEq

/-- What an evaluation does to the stored key. -/
inductive RotationEffect
  | keeps
  | forgets
  | publishes
  | rotates
  deriving DecidableEq

namespace Evaluation

/-- The state after an evaluation, whatever it answered or threw. -/
def run (evaluation : Evaluation) (state : RotationState) : RotationState :=
  (keyRotation evaluation.now evaluation.token evaluation.apiKey state).2

/-- The state after some evaluations. -/
def runAll (state : RotationState) (evaluations : List Evaluation) : RotationState :=
  evaluations.foldl (fun state evaluation => evaluation.run state) state

/-- The effect when the period started at `start`. -/
def effectSince (evaluation : Evaluation) (start : Int) : RotationEffect :=
  match endOf start evaluation.apiKey.rotation with
  | .error _ => .keeps
  | .ok endAt =>
      match startGraceOf endAt evaluation.apiKey.rotation with
      | .error _ => .keeps
      | .ok startGrace =>
          if beforeGracePeriod start startGrace endAt evaluation.now then .keeps
          else if inGracePeriod start startGrace endAt evaluation.now then .publishes
          else if afterGracePeriod start startGrace endAt evaluation.now then .rotates
          else .keeps

/-- The effect of an evaluation on the stored key, from the record and the times. -/
def effect (evaluation : Evaluation) (state : RotationState) : RotationEffect :=
  if evaluation.apiKey.rotation.enabled then
    match RotationRecord.startAt state.record evaluation.now with
    | some start => evaluation.effectSince start
    | none =>
        match endOf evaluation.now evaluation.apiKey.rotation with
        | .ok _ => .forgets
        | .error _ => .keeps
  else .keeps

/-- The stored key after an effect. -/
def keyAfter (evaluation : Evaluation) (stored : ApiKey) : RotationEffect → ApiKey
  | .keeps => stored
  | .forgets => { evaluation.apiKey with
      rotation := { evaluation.apiKey.rotation with nextSecret := none } }
  | .publishes => { evaluation.apiKey with
      rotation := { evaluation.apiKey.rotation with
        nextSecret := evaluation.apiKey.rotation.nextSecret.or (some evaluation.token) } }
  | .rotates => { evaluation.apiKey with
      clientSecret := evaluation.apiKey.rotation.nextSecret.getD evaluation.token
      rotation := { evaluation.apiKey.rotation with nextSecret := none } }

/-- An evaluation changes the stored key by its effect and in no other way. -/
theorem apikey_run (evaluation : Evaluation) (state : RotationState) :
    (evaluation.run state).apikey =
      evaluation.keyAfter state.apikey (evaluation.effect state) := by
  rw [run, keyRotation, effect]
  by_cases henabled : evaluation.apiKey.rotation.enabled = true
  · rw [if_pos henabled, if_pos henabled]
    have hget : getRecord evaluation.now state =
        (.ok (RotationRecord.startAt state.record evaluation.now), state) := rfl
    rw [Stateful.bind_of_ok hget]
    cases RotationRecord.startAt state.record evaluation.now with
    | none =>
        cases hend : endOf evaluation.now evaluation.apiKey.rotation with
        | error e => rfl
        | ok endAt => rfl
    | some start =>
        simp only [effectSince]
        cases hend : endOf start evaluation.apiKey.rotation with
        | error e => rfl
        | ok endAt =>
            rw [Stateful.bind_of_ok (compute_ok endAt state)]
            cases hgrace : startGraceOf endAt evaluation.apiKey.rotation with
            | error e =>
                simp only [hgrace]
                rfl
            | ok startGrace =>
                rw [Stateful.bind_of_ok (compute_ok startGrace state)]
                simp only [hgrace]
                by_cases hbefore : beforeGracePeriod start startGrace endAt evaluation.now = true
                · rw [if_pos hbefore, if_pos hbefore]
                  rfl
                · rw [if_neg hbefore, if_neg hbefore]
                  by_cases hin : inGracePeriod start startGrace endAt evaluation.now = true
                  · rw [if_pos hin, if_pos hin]
                    rfl
                  · rw [if_neg hin, if_neg hin]
                    by_cases hafter : afterGracePeriod start startGrace endAt evaluation.now = true
                    · rw [if_pos hafter, if_pos hafter]
                      rfl
                    · rw [if_neg hafter, if_neg hafter]
                      rfl
  · rw [if_neg henabled, if_neg henabled]
    rfl

end Evaluation

end Otoroshi
