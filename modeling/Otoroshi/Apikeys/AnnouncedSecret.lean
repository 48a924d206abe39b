/-
# Announced secrets

A next secret that is published on a key is a promise: clients may switch to it
before the change, so the next change of the secret has to be to that one.

An evaluation can break the promise in two ways. If the record has expired, it
starts a new period and takes the next secret off the key. If it works on a copy
that was read before the publication, it publishes or sets another one.
`SoundRun` excludes both, and `keepsPromises_of_sound` says that every run that
is left keeps all promises. When the tokens that are drawn are new, nothing else
does.
-/

import Otoroshi.Apikeys.KeyRotation
import Otoroshi.Foundation.Run

namespace Otoroshi

namespace Evaluation

/-- `next` is published on the stored key. -/
def Announced (state : RotationState) (next : Str) : Prop :=
  state.apikey.rotation.nextSecret = some next

instance (state : RotationState) (next : Str) : Decidable (Announced state next) :=
  inferInstanceAs (Decidable (_ = _))

/-- Along the evaluations the secret and the published secret stay what they are,
until the secret becomes the published one. -/
def Honours (secret next : Str) : RotationState → List Evaluation → Prop
  | _, [] => True
  | state, evaluation :: rest =>
      ((evaluation.run state).apikey.clientSecret = secret ∧
        Announced (evaluation.run state) next ∧
        Honours secret next (evaluation.run state) rest) ∨
      (evaluation.run state).apikey.clientSecret = next

/-- Every secret that is published at some point of the run is honoured by the
rest of it. -/
def KeepsPromises : RotationState → List Evaluation → Prop :=
  Along run fun state evaluation rest => ∀ next, Announced state next →
    Honours state.apikey.clientSecret next state (evaluation :: rest)

/-- Where a next secret is published, the evaluation does not find the record
expired. If it publishes, its copy of the key carries both secrets of the stored
key, and if it rotates, the published one. -/
def Sound (evaluation : Evaluation) (state : RotationState) : Prop :=
  ∀ next ∈ state.apikey.rotation.nextSecret,
    match evaluation.effect state with
    | .keeps => True
    | .forgets => False
    | .publishes => evaluation.apiKey.clientSecret = state.apikey.clientSecret ∧
        evaluation.apiKey.rotation.nextSecret = some next
    | .rotates => evaluation.apiKey.rotation.nextSecret = some next

/-- Every evaluation of the run is sound. -/
def SoundRun : RotationState → List Evaluation → Prop :=
  Along run fun state evaluation _ => evaluation.Sound state

/-- No evaluation draws the published secret again, or has it for the secret of
its copy. -/
def FreshRun : RotationState → List Evaluation → Prop :=
  Along run fun state evaluation _ => ∀ next, Announced state next →
    evaluation.token ≠ next ∧ evaluation.apiKey.clientSecret ≠ next

instance (evaluation : Evaluation) (state : RotationState) : Decidable (evaluation.Sound state) :=
  have : ∀ next, Decidable (match evaluation.effect state with
      | .keeps => True
      | .forgets => False
      | .publishes => evaluation.apiKey.clientSecret = state.apikey.clientSecret ∧
          evaluation.apiKey.rotation.nextSecret = some next
      | .rotates => evaluation.apiKey.rotation.nextSecret = some next) := by
    intro next
    split <;> infer_instance
  inferInstanceAs (Decidable (∀ next ∈ state.apikey.rotation.nextSecret, _))

instance (state : RotationState) (evaluations : List Evaluation) :
    Decidable (SoundRun state evaluations) :=
  inferInstanceAs (Decidable (Along run _ state evaluations))

variable {evaluation : Evaluation} {state : RotationState} {next : Str}
  {evaluations : List Evaluation}

/-- What a sound evaluation does to a published secret. -/
theorem honoured_of_sound (hsound : evaluation.Sound state) (hnext : Announced state next) :
    ((evaluation.run state).apikey.clientSecret = state.apikey.clientSecret ∧
        Announced (evaluation.run state) next) ∨
      (evaluation.run state).apikey.clientSecret = next := by
  have heffect := hsound next hnext
  rw [Announced, apikey_run]
  cases hcase : evaluation.effect state with
  | keeps => exact Or.inl ⟨rfl, hnext⟩
  | forgets =>
      rw [hcase] at heffect
      exact heffect.elim
  | publishes =>
      rw [hcase] at heffect
      refine Or.inl ⟨heffect.1, ?_⟩
      simp [keyAfter, heffect.2]
  | rotates =>
      rw [hcase] at heffect
      have hsecret : evaluation.apiKey.rotation.nextSecret = some next := heffect
      exact Or.inr (by simp [keyAfter, hsecret])

/-- With new tokens only a sound evaluation does that. -/
theorem sound_of_honoured (hnext : Announced state next) (htoken : evaluation.token ≠ next)
    (hcopy : evaluation.apiKey.clientSecret ≠ next)
    (h : ((evaluation.run state).apikey.clientSecret = state.apikey.clientSecret ∧
        Announced (evaluation.run state) next) ∨
      (evaluation.run state).apikey.clientSecret = next) : evaluation.Sound state := by
  intro other hother
  have hsame : next = other := Option.some.inj (hnext.symm.trans hother)
  subst hsame
  rw [Announced, apikey_run] at h
  cases hcase : evaluation.effect state with
  | keeps => exact trivial
  | forgets =>
      rw [hcase] at h
      rcases h with ⟨-, hgone⟩ | hsecret
      · cases hgone
      · exact hcopy hsecret
  | publishes =>
      rw [hcase] at h
      rcases h with ⟨hsecret, hpublished⟩ | hsecret
      · refine ⟨hsecret, ?_⟩
        cases hcopied : evaluation.apiKey.rotation.nextSecret with
        | none => simp [keyAfter, hcopied, htoken] at hpublished
        | some copied => simpa [keyAfter, hcopied] using hpublished
      · exact absurd hsecret hcopy
  | rotates =>
      rw [hcase] at h
      rcases h with ⟨-, hgone⟩ | hsecret
      · cases hgone
      · show evaluation.apiKey.rotation.nextSecret = some next
        cases hcopied : evaluation.apiKey.rotation.nextSecret with
        | none => simp [keyAfter, hcopied, htoken] at hsecret
        | some copied => simpa [keyAfter, hcopied] using hsecret

/-- A sound run honours what is published when it starts. -/
theorem honours_of_sound (hrun : SoundRun state evaluations) (hnext : Announced state next) :
    Honours state.apikey.clientSecret next state evaluations := by
  induction evaluations generalizing state with
  | nil => exact trivial
  | cons evaluation rest ih =>
      rcases honoured_of_sound hrun.1 hnext with ⟨hsecret, hpublished⟩ | hrotated
      · refine Or.inl ⟨hsecret, hpublished, ?_⟩
        rw [← hsecret]
        exact ih hrun.2 hpublished
      · exact Or.inr hrotated

/-- A sound run keeps all promises. A run that draws new tokens only keeps them
if it is sound. -/
theorem keepsPromises_of_sound (state : RotationState) (evaluations : List Evaluation) :
    (SoundRun state evaluations → KeepsPromises state evaluations) ∧
      (FreshRun state evaluations → KeepsPromises state evaluations →
        SoundRun state evaluations) := by
  refine ⟨fun hsound => ?_, fun hfresh hkeeps => ?_⟩
  · apply along_of_suffix _ hsound
    intro state evaluation rest hrest next hnext
    exact honours_of_sound hrest hnext
  · apply along_of_suffix _ (along_and hfresh hkeeps)
    intro state evaluation rest hrest
    obtain ⟨⟨hfresh, hkeeps⟩, -⟩ := hrest
    intro other hother
    obtain ⟨htoken, hcopy⟩ := hfresh other hother
    apply sound_of_honoured hother htoken hcopy _ other hother
    rcases hkeeps other hother with ⟨hsame, hpublished, -⟩ | hrotated
    · exact Or.inl ⟨hsame, hpublished⟩
    · exact Or.inr hrotated

/-- A key that rotates every day, with two hours of grace. -/
def dailyKey (clientSecret : String) (nextSecret : Option String) : ApiKey where
  clientId := "id".toList
  clientSecret := clientSecret.toList
  rotation := {
    enabled := true
    rotationEvery := 24
    gracePeriod := 2
    nextSecret := nextSecret.map String.toList }
  rest := []

/-- An evaluation some minutes after the hour. -/
def evaluateAt (hours minutes : Int) (apiKey : ApiKey) (token : String) : Evaluation where
  now := hours * 3600000 + minutes * 60000
  apiKey
  token := token.toList

theorem keepsPromises_of_sound_of_example :
    KeepsPromises ⟨dailyKey "s0" none, none, []⟩
      [evaluateAt 0 0 (dailyKey "s0" none) "t0", evaluateAt 23 0 (dailyKey "s0" none) "t1",
        evaluateAt 24 1 (dailyKey "s0" (some "t1")) "t2"] :=
  (keepsPromises_of_sound _ _).1 (by decide +kernel)

/-- Six minutes after the end of the period the record is gone: an evaluation
takes the published secret off the key and keeps the old one. -/
theorem exists_broken_promise :
    ¬ ∀ (state : RotationState) (evaluations : List Evaluation),
      KeepsPromises state evaluations := by
  intro h
  obtain ⟨-, -, hlast, -⟩ := h ⟨dailyKey "s0" none, none, []⟩
    [evaluateAt 0 0 (dailyKey "s0" none) "t0", evaluateAt 23 0 (dailyKey "s0" none) "t1",
      evaluateAt 24 6 (dailyKey "s0" (some "t1")) "t2"]
  rcases hlast "t1".toList (by decide +kernel) with ⟨-, hpublished, -⟩ | hrotated
  · exact absurd hpublished (by decide +kernel)
  · exact absurd hrotated (by decide +kernel)

end Evaluation

end Otoroshi
