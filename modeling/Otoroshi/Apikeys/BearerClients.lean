/-
# Client ids of bearers

A bearer has the mark `otoapk_`, the client id of its key and a signature. The id is read back
without its mark: first the mark with the name of the environment is looked for, as a regular
expression, then the mark alone, anywhere, and what is left is cut at its last underscore.

`extract_toBearer` says when the id is the one that the bearer was made for.
-/

import Otoroshi.Apikeys.Validation
import Otoroshi.Foundation.Replacing

namespace Otoroshi

namespace Credentials

namespace OtoroshiBearerToken

/-- The mark of a bearer. -/
def mark : Str := "otoapk_".toList

/-- What stands before the last part. -/
def initParts (s : Str) : Except ApikeyException Str :=
  if (split '_' s).isEmpty then .error .unsupportedOperation
  else .ok (List.intercalate "_".toList (split '_' s).dropLast)

/-- `extractClientId`, with `none` where the engine refuses the pattern that the name of the
environment makes. -/
def extract (engine : RegexFinder) (environment bearer : Str) :
    Option (Except ApikeyException Str) :=
  (engine.removeFirst bearer (mark ++ environment)).map fun rest =>
    initParts (replaceFirst rest mark [])

/-- Where the name of the environment is plain text, so is what is looked for. -/
theorem extract_of_plain (engine : RegexFinder) {environment : Str} (h : Plain environment)
    (bearer : Str) :
    extract engine environment bearer = some (extractClientId environment bearer) := by
  have hmark : Plain mark := by decide
  have hplain : Plain (mark ++ environment) := List.forall_mem_append.mpr ⟨hmark, h⟩
  rw [extract, engine.removeFirst_of_plain hplain]
  rfl

/-! ## The last part -/

section Parts

variable {clientId signature s : Str}

theorem split_of_notMem (h : '_' ∉ s) : split '_' s = [s] := if_neg h

theorem initParts_of_notMem (h : '_' ∉ s) : initParts s = .ok [] := by
  rw [initParts, split_of_notMem h]
  rfl

theorem splitOn_append (h : '_' ∉ signature) :
    (clientId ++ '_' :: signature).splitOn '_' = clientId.splitOn '_' ++ [signature] := by
  rw [List.splitOn_append_cons_self, List.splitOn_eq_singleton h]

/-- The id is what stands before a signature. -/
theorem initParts_append (hnil : signature ≠ []) (h : '_' ∉ signature) :
    initParts (clientId ++ '_' :: signature) = .ok clientId := by
  have hmem : '_' ∈ clientId ++ '_' :: signature :=
    List.mem_append_right _ (List.mem_cons_self ..)
  have hparts : split '_' (clientId ++ '_' :: signature) =
      clientId.splitOn '_' ++ [signature] := by
    rw [split, if_pos hmem, splitOn_append h, List.rdropWhile_concat_neg]
    rwa [List.isEmpty_iff]
  rw [initParts, hparts, if_neg (by simp), List.dropLast_concat]
  exact congrArg Except.ok (List.intercalate_splitOn '_')

theorem intercalate_append_prefix (first second : List Str) :
    List.intercalate "_".toList first <+: List.intercalate "_".toList (first ++ second) := by
  induction first with
  | nil => exact List.nil_prefix
  | cons part parts ih =>
      cases parts with
      | nil =>
          cases second with
          | nil => exact List.prefix_rfl
          | cons other others =>
              rw [List.intercalate_singleton, List.singleton_append, List.intercalate_cons_cons,
                List.append_assoc]
              exact List.prefix_append ..
      | cons next parts =>
          rw [List.cons_append, List.cons_append, List.intercalate_cons_cons,
            List.intercalate_cons_cons]
          exact (List.prefix_append_right_inj _).mpr ih

/-- What is read before the last part stands at the beginning. -/
theorem prefix_of_initParts (h : '_' ∉ signature)
    {found : Str} (hfound : initParts (clientId ++ '_' :: signature) = .ok found) :
    found <+: clientId := by
  have hmem : '_' ∈ clientId ++ '_' :: signature :=
    List.mem_append_right _ (List.mem_cons_self ..)
  rw [initParts] at hfound
  split at hfound
  · cases hfound
  · cases hfound
    have hparts : split '_' (clientId ++ '_' :: signature) <+:
        clientId.splitOn '_' ++ [signature] := by
      rw [split, if_pos hmem, splitOn_append h]
      exact List.rdropWhile_prefix ..
    have hinit : (split '_' (clientId ++ '_' :: signature)).dropLast <+: clientId.splitOn '_' := by
      rcases List.prefix_concat_iff.mp hparts with hall | hbefore
      · have hinit := congrArg List.dropLast hall
        rw [List.dropLast_concat] at hinit
        exact hinit ▸ List.prefix_rfl
      · exact (List.dropLast_prefix _).trans hbefore
    obtain ⟨rest, hrest⟩ := hinit
    have hbegins := intercalate_append_prefix
      (split '_' (clientId ++ '_' :: signature)).dropLast rest
    rw [hrest] at hbegins
    exact hbegins.trans (List.intercalate_splitOn '_' ▸ List.prefix_rfl)

theorem exists_last_part (h : '_' ∈ s) : ∃ before last, s = before ++ '_' :: last ∧ '_' ∉ last := by
  obtain ⟨last, before, heq, hlast⟩ := List.eq_append_cons_of_mem (List.mem_reverse.mpr h)
  refine ⟨before.reverse, last.reverse, ?_, by rwa [List.mem_reverse]⟩
  rw [← List.reverse_reverse s, heq, List.reverse_append, List.reverse_cons, List.append_assoc]
  rfl

/-- What is read of a part of a bearer is not longer than the id of the part. -/
theorem length_le_of_sublist (h : '_' ∉ signature) (hsub : s.Sublist (clientId ++ '_' :: signature))
    {found : Str} (hfound : initParts s = .ok found) : found.length ≤ clientId.length := by
  by_cases hmem : '_' ∈ s
  · obtain ⟨before, last, rfl, hlast⟩ := exists_last_part hmem
    have hbefore : (before ++ ['_']).Sublist ((clientId ++ ['_']) ++ signature) := by
      rw [List.append_cons before, List.append_cons clientId] at hsub
      exact (List.sublist_append_left _ last).trans hsub
    obtain ⟨first, second, heq, hfirst, hsecond⟩ := List.sublist_append_iff.mp hbefore
    have hnil : second = [] := by
      rcases List.eq_nil_or_concat second with hnil | ⟨_, c, rfl⟩
      · exact hnil
      · rw [List.concat_eq_append, ← List.append_assoc] at heq
        have hc := List.append_inj_right' heq rfl
        cases hc
        exact absurd (hsecond.subset (by simp)) h
    rw [hnil, List.append_nil] at heq
    have hlength := (heq ▸ hfirst).length_le
    rw [List.length_append, List.length_append] at hlength
    have hbegins := (prefix_of_initParts hlast hfound).length_le
    simp only [List.length_singleton] at hlength
    omega
  · rw [initParts_of_notMem hmem] at hfound
    cases hfound
    exact Nat.zero_le _

/-- Where something of the id is left out, the id is not read. -/
theorem initParts_ne (h : '_' ∉ signature) {before removed after : Str}
    (hparts : clientId ++ '_' :: signature = before ++ removed ++ after)
    (hbefore : before.length < clientId.length) (hremoved : removed ≠ [])
    (hsub : s.Sublist (before ++ after)) : initParts s ≠ .ok clientId := by
  intro hfound
  have hlength := List.length_pos_iff.mpr hremoved
  rcases List.append_eq_append_iff.mp hparts with ⟨rest, hleft, hright⟩ | ⟨rest, hleft, hright⟩
  · have hafter : after.Sublist ('_' :: signature) := hright ▸ List.sublist_append_right ..
    have := length_le_of_sublist h (hsub.trans (hafter.append_left before)) hfound
    omega
  · rw [hright, ← List.append_assoc] at hsub
    have hle := length_le_of_sublist h hsub hfound
    rw [hleft, List.length_append, List.length_append, List.length_append] at hle
    omega

end Parts

/-! ## The marks -/

section Marks

variable {clientId signature environment s : Str}

/-- What is left of a bearer without its mark. -/
theorem replaceFirst_mark (s : Str) : replaceFirst (mark ++ s) mark [] = s :=
  replaceFirst_append mark s []

/-- No mark begins within another one. -/
theorem replaceFirst_mark_append (h : ¬ environment <+: s) :
    replaceFirst (mark ++ s) (mark ++ environment) [] =
      mark ++ replaceFirst s (mark ++ environment) [] := by
  have hmark : mark = ['o', 't', 'o', 'a', 'p', 'k', '_'] := rfl
  have henvironment : environment.isPrefixOf s = false := by
    rwa [Bool.eq_false_iff, ne_eq, List.isPrefixOf_iff_prefix]
  rw [hmark]
  simp [replaceFirst, henvironment]

theorem replaceFirst_sublist (s text : Str) : (replaceFirst s text []).Sublist s := by
  by_cases h : text <:+: s
  · obtain ⟨before, after, hs, hreplaced⟩ := exists_replaceFirst_eq h []
    rw [hreplaced, hs, List.append_nil]
    exact (List.sublist_append_left before text).append_right after
  · rw [replaceFirst_eq_self h]

/-- A mark begins in the id, since there is none of its characters in a signature. -/
theorem length_lt_of_mark (h : 'o' ∉ signature) {before after : Str}
    (hparts : clientId ++ '_' :: signature = before ++ (mark ++ environment) ++ after) :
    before.length < clientId.length := by
  rw [List.append_assoc] at hparts
  rcases List.append_eq_append_iff.mp hparts with ⟨rest, hleft, hright⟩ | ⟨rest, hleft, hright⟩
  · have hmem : 'o' ∈ '_' :: signature := by
      rw [hright]
      exact List.mem_append_right _ (List.mem_cons_self ..)
    exact absurd hmem (List.not_mem_cons_of_ne_of_not_mem (by decide) h)
  · rw [hleft, List.length_append]
    cases rest with
    | nil => cases hright
    | cons c rest => exact Nat.lt_add_of_pos_right (Nat.succ_pos _)

/-- What is left of a bearer without its marks. -/
def unmarked (environment s : Str) : Str :=
  replaceFirst (replaceFirst (mark ++ s) (mark ++ environment) []) mark []

theorem extractClientId_eq (environment s : Str) :
    extractClientId environment (mark ++ s) = initParts (unmarked environment s) := rfl

/-- The name of the environment is at the beginning of the id. -/
theorem unmarked_of_prefix (environment after : Str) :
    unmarked environment (environment ++ after) = replaceFirst after mark [] := by
  rw [unmarked, ← List.append_assoc, replaceFirst_append]
  rfl

theorem unmarked_of_not_begins (h : environment = [] ∨ ¬ environment <+: s) :
    unmarked environment s = replaceFirst s (mark ++ environment) [] := by
  rcases h with rfl | h
  · rw [unmarked, List.append_nil, replaceFirst_mark]
  · rw [unmarked, replaceFirst_mark_append h, replaceFirst_mark]

end Marks

/-! ## Which ids are read -/

/-- The id is read: it is empty, or the name of the environment is not at the beginning of
what follows the mark, and there is no other mark with this name. -/
def ReadsId (environment clientId signature : Str) : Prop :=
  clientId = [] ∨
    (environment = [] ∨ ¬ environment <+: clientId ++ '_' :: signature) ∧
      ¬ mark ++ environment <:+: clientId ++ '_' :: signature

instance (environment clientId signature : Str) :
    Decidable (ReadsId environment clientId signature) := by
  unfold ReadsId
  infer_instance

/-- A match that does no harm: there is none, or it is empty, or it is the mark, and there is
no other mark, or it is in the signature and leaves something of it. -/
def Harmless (clientId signature : Str) : Option (Str × Str × Str) → Prop
  | none => True
  | some (before, found, after) =>
      found = [] ∨ (before = [] ∧ found = mark ∧ ¬ mark <:+: clientId ++ '_' :: signature) ∨
        ∃ beginning, before = mark ++ clientId ++ '_' :: beginning ∧ beginning ++ after ≠ []

section Reading

variable {environment clientId signature : Str}

theorem reads_of_extractClientId (hmem : '_' ∉ signature) (ho : 'o' ∉ signature)
    (h : extractClientId environment (mark ++ (clientId ++ '_' :: signature)) = .ok clientId) :
    ReadsId environment clientId signature := by
  by_contra hreads
  rw [ReadsId, not_or, not_and_or] at hreads
  obtain ⟨hnil, hmarks⟩ := hreads
  rw [extractClientId_eq] at h
  by_cases henvironment : environment = [] ∨ ¬ environment <+: clientId ++ '_' :: signature
  · rw [unmarked_of_not_begins henvironment] at h
    have hinside := not_not.mp (hmarks.resolve_left (not_not_intro henvironment))
    obtain ⟨before, after, hparts, hreplaced⟩ := exists_replaceFirst_eq hinside []
    rw [hreplaced, List.append_nil] at h
    exact initParts_ne hmem hparts (length_lt_of_mark ho hparts) (List.cons_ne_nil _ _)
      (List.Sublist.refl _) h
  · rw [not_or, not_not] at henvironment
    obtain ⟨after, hafter⟩ := henvironment.2
    rw [← hafter, unmarked_of_prefix] at h
    exact @initParts_ne clientId signature _ hmem [] environment after hafter.symm
      (List.length_pos_iff.mpr hnil) henvironment.1 (replaceFirst_sublist after mark) h

/-- No mark is left where the name of the environment does not follow the first one. -/
theorem initParts_of_not_infix (hmem : '_' ∉ signature) (hne : signature ≠ [])
    (h : ¬ mark ++ environment <:+: clientId ++ '_' :: signature) :
    initParts (replaceFirst (clientId ++ '_' :: signature) (mark ++ environment) []) =
      .ok clientId := by
  rw [replaceFirst_eq_self h, initParts_append hne hmem]

theorem extractClientId_of_reads (hmem : '_' ∉ signature) (ho : 'o' ∉ signature)
    (hne : signature ≠ []) (h : ReadsId environment clientId signature) :
    extractClientId environment (mark ++ (clientId ++ '_' :: signature)) = .ok clientId := by
  rw [extractClientId_eq]
  rcases h with rfl | ⟨henvironment, hinside⟩
  · by_cases henvironment : environment = [] ∨ ¬ environment <+: [] ++ '_' :: signature
    · rw [unmarked_of_not_begins henvironment]
      refine initParts_of_not_infix hmem hne fun hinside => ?_
      obtain ⟨before, after, hparts⟩ := hinside
      exact Nat.not_lt_zero _ (length_lt_of_mark ho hparts.symm)
    · rw [not_or, not_not] at henvironment
      obtain ⟨hnil, after, hafter⟩ := henvironment
      rw [← hafter, unmarked_of_prefix]
      apply initParts_of_notMem
      intro hunderscore
      have hrest := (replaceFirst_sublist after mark).subset hunderscore
      obtain ⟨c, rest, rfl⟩ := List.exists_cons_of_ne_nil hnil
      injection hafter with hc hrest'
      exact hmem (hrest' ▸ List.mem_append_right rest hrest)
  · rw [unmarked_of_not_begins henvironment]
    exact initParts_of_not_infix hmem hne hinside

/-- What a harmless match leaves is a bearer with the id, or the id without its mark. -/
theorem initParts_of_harmless (hmem : '_' ∉ signature) (hne : signature ≠ [])
    {found : Option (Str × Str × Str)}
    (hfound : ∀ before found' after, found = some (before, found', after) →
      before ++ found' ++ after = mark ++ (clientId ++ '_' :: signature))
    (h : Harmless clientId signature found) :
    initParts (replaceFirst (withoutMatch (mark ++ (clientId ++ '_' :: signature)) found) mark
      []) = .ok clientId := by
  cases found with
  | none => rw [withoutMatch, replaceFirst_mark, initParts_append hne hmem]
  | some parts =>
      obtain ⟨before, text, after⟩ := parts
      have hparts := hfound before text after rfl
      rw [withoutMatch]
      rcases h with rfl | ⟨rfl, rfl, hother⟩ | ⟨beginning, rfl, hleft⟩
      · rw [List.append_nil] at hparts
        rw [hparts, replaceFirst_mark, initParts_append hne hmem]
      · have hafter : after = clientId ++ '_' :: signature := List.append_cancel_left hparts
        rw [List.nil_append, hafter, replaceFirst_eq_self hother, initParts_append hne hmem]
      · have hsignature : beginning ++ text ++ after = signature := by
          have hsame : mark ++ (clientId ++ '_' :: (beginning ++ text ++ after)) =
              mark ++ (clientId ++ '_' :: signature) := by
            rw [← hparts]
            simp only [List.append_assoc, List.cons_append]
          exact List.cons.inj (List.append_cancel_left (List.append_cancel_left hsame)) |>.2
        have hleft' : mark ++ clientId ++ '_' :: beginning ++ after =
            mark ++ (clientId ++ '_' :: (beginning ++ after)) := by
          simp only [List.append_assoc, List.cons_append]
        have hmem' : '_' ∉ beginning ++ after := by
          intro hunderscore
          refine hmem (hsignature ▸ ?_)
          rcases List.mem_append.mp hunderscore with hbefore | hafter
          · exact List.mem_append_left _ (List.mem_append_left _ hbefore)
          · exact List.mem_append_right _ hafter
        rw [hleft', replaceFirst_mark, initParts_append hleft hmem']

end Reading

/-- `Hashing.hmacSha256(..).hashBytes(..).toString`: hexadecimal digits. -/
structure HmacSha256 where
  digest : Str → Str → Str
  digest_ne_nil : ∀ secret text, digest secret text ≠ []
  hexadecimal : ∀ secret text, ∀ c ∈ digest secret text, c ∈ "0123456789abcdef".toList

theorem HmacSha256.notMem {c : Char} (hmac : HmacSha256)
    (h : c ∉ "0123456789abcdef".toList) (secret text : Str) : c ∉ hmac.digest secret text :=
  fun hmem => h (hmac.hexadecimal secret text c hmem)

end OtoroshiBearerToken

open OtoroshiBearerToken

theorem toBearer_eq {Throttling Plugins : Type} (hmacSha256 : Str → Str → Str)
    (apiKey : Entities.ApiKey Throttling Plugins) :
    apiKey.toBearer hmacSha256 =
      mark ++ (apiKey.clientId ++ '_' :: hmacSha256 apiKey.clientSecret apiKey.getPrefix) := by
  rw [Entities.ApiKey.toBearer, Entities.ApiKey.bearerOf, ← List.append_assoc]
  rfl

/-- Of a bearer that a key makes, the id of the key is read exactly if no other mark is taken
for its own, where the name of the environment is plain text. For any other name, a match that
does no harm is enough. -/
theorem extract_toBearer {Throttling Plugins : Type} (engine : RegexFinder) (hmac : HmacSha256)
    (environment : Str) (apiKey : Entities.ApiKey Throttling Plugins) :
    (Plain environment →
      (extract engine environment (apiKey.toBearer hmac.digest) = some (.ok apiKey.clientId) ↔
        ReadsId environment apiKey.clientId (hmac.digest apiKey.clientSecret apiKey.getPrefix))) ∧
      (∀ found, engine.find (mark ++ environment) (apiKey.toBearer hmac.digest) = some found →
        Harmless apiKey.clientId (hmac.digest apiKey.clientSecret apiKey.getPrefix) found →
          extract engine environment (apiKey.toBearer hmac.digest) =
            some (.ok apiKey.clientId)) := by
  have hmem := hmac.notMem (c := '_') (by decide) apiKey.clientSecret apiKey.getPrefix
  have ho := hmac.notMem (c := 'o') (by decide) apiKey.clientSecret apiKey.getPrefix
  have hne := hmac.digest_ne_nil apiKey.clientSecret apiKey.getPrefix
  rw [toBearer_eq]
  constructor
  · intro hplain
    rw [extract_of_plain engine hplain, Option.some_inj]
    exact ⟨reads_of_extractClientId hmem ho, extractClientId_of_reads hmem ho hne⟩
  · intro found hfind hharmless
    rw [extract, RegexFinder.removeFirst, hfind, Option.map_some, Option.map_some]
    refine congrArg some (initParts_of_harmless hmem hne (fun before text after hfound => ?_)
      hharmless)
    exact engine.find_append _ _ before text after (hfind.trans (congrArg some hfound))

section Examples

/-- A function whose signatures all look the same. -/
def sameDigest : HmacSha256 where
  digest _ _ := List.replicate 64 'a'
  digest_ne_nil _ _ := List.cons_ne_nil _ _
  hexadecimal _ _ c hc := (List.eq_of_mem_replicate hc).symm ▸ by decide

/-- A key whose id begins with the name of the environment. -/
def devKey : Entities.ApiKey Unit Unit where
  clientId := "dev-api".toList
  clientSecret := "secret".toList
  clientName := "dev".toList
  authorizedEntities := []

/-- The name of the environment is taken from the id. -/
theorem exists_extract_ne :
    ¬ ∀ (engine : RegexFinder) (hmac : HmacSha256) (environment : Str)
      (apiKey : Entities.ApiKey Unit Unit),
        extract engine environment (apiKey.toBearer hmac.digest) = some (.ok apiKey.clientId) := by
  intro h
  have hfound := h textFinder sameDigest "dev".toList devKey
  rw [extract_of_plain textFinder (by decide), toBearer_eq, Option.some_inj] at hfound
  have hreads := reads_of_extractClientId (sameDigest.notMem (by decide) _ _)
    (sameDigest.notMem (by decide) _ _) hfound
  exact absurd hreads (by decide)

end Examples

end Credentials

end Otoroshi
