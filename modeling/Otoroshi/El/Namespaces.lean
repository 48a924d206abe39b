/-
# Namespaces

An expression `<namespace>.<name>:<default>` asks for a name in a namespace, with a default. It comes
to the case of its namespace if no case before it takes it. The patterns before differ from the
namespace in their first characters, but for `token` and `ctx`, which have five patterns of their own
before the one with a default.

The case finds the name and the default in two groups, of which the first takes as much as it can:
the default begins behind the last colon (`evaluate_of_last`).
-/

import Otoroshi.El.Values

namespace Otoroshi

namespace GlobalExpressionLanguage

open Captures

/-! ## Namespaces -/

/-- What can be asked for with a default. -/
inductive Namespace
  | serviceMetadata
  | routeMetadata
  | reqHeaders
  | reqQuery
  | reqCookies
  | reqPathparams
  | apikeyMetadata
  | token
  | inJwt
  | outJwt
  | env
  | config
  | ctx
  | userTokens
  | userMetadata
  | userProfile
  | consumerMetadata
  deriving DecidableEq

namespace Namespace

def all : List Namespace := [serviceMetadata, routeMetadata, reqHeaders, reqQuery, reqCookies,
  reqPathparams, apikeyMetadata, token, inJwt, outJwt, env, config, ctx, userTokens, userMetadata,
  userProfile, consumerMetadata]

theorem mem_all (ns : Namespace) : ns ∈ all := by
  cases ns <;> decide

def text : Namespace → String
  | serviceMetadata => "service.metadata"
  | routeMetadata => "route.metadata"
  | reqHeaders => "req.headers"
  | reqQuery => "req.query"
  | reqCookies => "req.cookies"
  | reqPathparams => "req.pathparams"
  | apikeyMetadata => "apikey.metadata"
  | token => "token"
  | inJwt => "in_jwt"
  | outJwt => "out_jwt"
  | env => "env"
  | config => "config"
  | ctx => "ctx"
  | userTokens => "user.tokens"
  | userMetadata => "user.metadata"
  | userProfile => "user.profile"
  | consumerMetadata => "consumer.metadata"

/-- An expression begins with the namespace and a dot. -/
def lead (ns : Namespace) : Str := ns.text.toList ++ ['.']

/-- The pattern of the case with a default, as it is written. -/
def source : Namespace → String
  | serviceMetadata => "service.metadata.$field@(.*):$dv@(.*)"
  | routeMetadata => "route.metadata.$field@(.*):$dv@(.*)"
  | reqHeaders => "req.headers.$field@(.*):$defaultValue@(.*)"
  | reqQuery => "req.query.$field@(.*):$defaultValue@(.*)"
  | reqCookies => "req.cookies.$field@(.*):$defaultValue@(.*)"
  | reqPathparams => "req.pathparams.$field@(.*):$defaultValue@(.*)"
  | apikeyMetadata => "apikey.metadata.$field@(.*):$dv@(.*)"
  | token => "token" ++ ".$field@(.*):$dv@(.*)"
  | inJwt => "in_jwt.$field@(.*):$dv@(.*)"
  | outJwt => "out_jwt.$field@(.*):$dv@(.*)"
  | env => "env.$field@(.*):$dv@(.*)"
  | config => "config.$field@(.*):$dv@(.*)"
  | ctx => "ctx" ++ ".$field@(.*):$dv@(.*)"
  | userTokens => "user.tokens.$field@(.*):$dv@(.*)"
  | userMetadata => "user.metadata.$field@(.*):$dv@(.*)"
  | userProfile => "user.profile.$field@(.*):$dv@(.*)"
  | consumerMetadata => "consumer.metadata.$field@(.*):$dv@(.*)"

/-- The settings let expressions read the namespace. -/
def allowed : Namespace → ElWorld → Bool
  | env, w => w.allowEnvAccess
  | config, w => w.allowConfigAccess
  | _, _ => true

variable (P : ElPlatform)

/-- What a name is in a namespace. -/
def look : Namespace → ElWorld → Str → Looked
  | serviceMetadata, w, name => .ok (w.service.bind (·.metadata name))
  | routeMetadata, w, name => .ok (w.route.bind (·.metadata name))
  | reqHeaders, w, name => .ok (w.req.bind (·.headers name))
  | reqQuery, w, name => .ok (w.req.bind (·.query name))
  | reqCookies, w, name => .ok (w.req.bind (·.cookies name))
  | reqPathparams, w, name => .ok (w.pathParams.bind (· name))
  | apikeyMetadata, w, name => .ok (w.apiKey.bind (·.metadata.lookup name))
  | token, w, name => .ok (w.context name)
  | inJwt, w, name => lookJwt P name w.inputJwtToken
  | outJwt, w, name => lookJwt P name w.outputJwtToken
  | env, w, name => .ok (w.getenv name)
  | config, w, name => w.config name
  | ctx, w, name => .ok (w.context name)
  | userTokens, w, name => .ok (lookToken w name)
  | userMetadata, w, name => lookOptional P (userData w) name
  | userProfile, w, name => lookOptional P (w.user.map (·.profile)) name
  | consumerMetadata, w, name => lookOptional P (consumerData w) name

/-- The value of the name where it has one, and the default otherwise. -/
def wanted (ns : Namespace) (w : ElWorld) (name default : Str) : Str :=
  match ns.look P w name with
  | .ok (some value) => value
  | _ => default

/-- `<namespace>.<name>:<default>` -/
def expression (ns : Namespace) (name default : Str) : Str := ns.lead ++ (name ++ ':' :: default)

/-- How many cases differ from every expression of the namespace at its start. -/
def skipped : Namespace → Nat
  | serviceMetadata => 9
  | routeMetadata => 14
  | reqHeaders => 17
  | reqQuery => 19
  | reqCookies => 21
  | reqPathparams => 23
  | apikeyMetadata => 26
  | token => 32
  | inJwt => 39
  | outJwt => 41
  | env => 45
  | config => 47
  | ctx => 49
  | userTokens => 62
  | userMetadata => 64
  | userProfile => 66
  | consumerMetadata => 70

/-- The cases of the namespace before the one with a default. -/
def before : Namespace → List ElCase
  | token => (contextual P "token").dropLast
  | ctx => (contextual P "ctx").dropLast
  | _ => []

/-- The case with a default. -/
def own (ns : Namespace) : ElCase := withDefault ns.source ns.allowed (ns.look P)

/-- A case of the namespace takes the expression before the one with a default. -/
def captured (ns : Namespace) (expr : Str) : Bool :=
  (ns.before plainPlatform).any fun c => (c.pattern.captures expr).isSome

end Namespace

/-! ## Passing over cases -/

/-- The texts differ in a character that both have. -/
def differ : Str → Str → Bool
  | c :: first, d :: second => c != d || differ first second
  | _, _ => false

namespace ElPattern

/-- The pattern takes no expression with a colon that starts so. -/
def clash (lead : Str) : ElPattern → Bool
  | fixed texts => texts.all fun text => decide (':' ∉ text)
  | beginning text => differ text lead
  | groups items => Captures.clash items lead

/-- The pattern takes no such expression of several lines. -/
def inLine (lead : Str) : ElPattern → Bool
  | groups items => items.all fun item =>
      match item with
      | .char c => !isLineTerminator c
      | _ => true
  | pattern => pattern.clash lead

variable {pattern : ElPattern} {lead rest : Str}

theorem startsWith_of_differ {text : Str} (h : differ text lead = true) :
    startsWith (lead ++ rest) text = false := by
  induction text, lead using differ.induct with
  | case1 c text d lead ih =>
      rw [differ, Bool.or_eq_true, bne_iff_ne] at h
      rw [startsWith, List.cons_append, List.isPrefixOf_cons_cons, Bool.and_eq_false_iff,
        beq_eq_false_iff_ne]
      exact h.imp_right ih
  | case2 text lead hnot =>
      rw [differ] at h
      · cases h
      · exact hnot

theorem captures_of_clash (h : pattern.clash lead = true) (hcolon : ':' ∈ rest) :
    pattern.captures (lead ++ rest) = none := by
  cases pattern with
  | fixed texts =>
      rw [clash, List.all_eq_true] at h
      rw [captures, if_neg]
      intro hmem
      exact of_decide_eq_true (h _ hmem) (List.mem_append_right lead hcolon)
  | beginning text =>
      rw [captures, startsWith_of_differ h]
      rfl
  | groups items => exact unapply_of_clash h rest

theorem captures_of_inLine (h : pattern.inLine lead = true) (hcolon : ':' ∈ rest) {c : Char}
    (hc : isLineTerminator c = true) (hmem : c ∈ rest) :
    pattern.captures (lead ++ rest) = none := by
  cases pattern with
  | fixed texts => exact @captures_of_clash (fixed texts) lead rest h hcolon
  | beginning text => exact @captures_of_clash (beginning text) lead rest h hcolon
  | groups items =>
      rw [inLine, List.all_eq_true] at h
      apply unapply_of_lineTerminator hc (List.mem_append_right lead hmem)
      intro hitem
      have hfree := h _ hitem
      rw [Bool.not_eq_true', hc] at hfree
      cases hfree

end ElPattern

section FirstCase

variable {w : ElWorld} {expr : Str} {before : List ElCase}

theorem firstCase_append (h : ∀ c ∈ before, c.pattern.captures expr = none)
    (rest : List ElCase) : firstCase w expr (before ++ rest) = firstCase w expr rest := by
  induction before with
  | nil => rfl
  | cons c before ih =>
      rw [List.cons_append, firstCase, h c List.mem_cons_self,
        ih fun d hd => h d (List.mem_cons_of_mem _ hd)]
      rfl

theorem firstCase_of_none (h : ∀ c ∈ before, c.pattern.captures expr = none) :
    firstCase w expr before = none := by
  have happend := firstCase_append (w := w) h []
  rwa [List.append_nil] at happend

/-- The first case whose pattern fits has the expression, if it has no guard. -/
theorem exists_firstCase_eq (h : ∃ c ∈ before, c.pattern.captures expr ≠ none)
    (hrun : ∀ c ∈ before, ∀ captures, c.pattern.captures expr = some captures →
      ∀ w, c.run w captures ≠ none) (rest : List ElCase) :
    ∃ c ∈ before, ∃ captures, c.pattern.captures expr = some captures ∧
      ∀ w, firstCase w expr (before ++ rest) = c.run w captures := by
  induction before with
  | nil =>
      obtain ⟨c, hc, -⟩ := h
      cases hc
  | cons c before ih =>
      cases hcaptures : c.pattern.captures expr with
      | none =>
          have hlater : ∃ d ∈ before, d.pattern.captures expr ≠ none := by
            obtain ⟨d, hd, hfits⟩ := h
            rcases List.mem_cons.mp hd with rfl | hd
            · exact absurd hcaptures hfits
            · exact ⟨d, hd, hfits⟩
          obtain ⟨d, hd, captures, hfits, heq⟩ := ih hlater fun d hd =>
            hrun d (List.mem_cons_of_mem _ hd)
          refine ⟨d, List.mem_cons_of_mem _ hd, captures, hfits, fun w => ?_⟩
          rw [List.cons_append, firstCase, hcaptures, ← heq w]
          rfl
      | some captures =>
          refine ⟨c, List.mem_cons_self, captures, hcaptures, fun w => ?_⟩
          obtain ⟨found, hfound⟩ :=
            Option.ne_none_iff_exists'.mp (hrun c List.mem_cons_self captures hcaptures w)
          rw [List.cons_append, firstCase, hcaptures, Option.bind_some, hfound, Option.some_or]

end FirstCase

/-! ## The case with a default -/

def patterns : List ElPattern := (cases plainPlatform).map (·.pattern)

theorem map_pattern_cases (P : ElPlatform) : (cases P).map (·.pattern) = patterns := rfl

theorem items_ofList (chars : List Char) : items (String.ofList chars) = parse false chars := by
  rw [items, String.toList_ofList]

theorem items_append (first second : String) :
    items (first ++ second) = parse false (first.toList ++ second.toList) := by
  rw [items, String.toList_append]

/-- What the patterns have to be for an expression to come to its case. -/
theorem patterns_spec : ∀ ns ∈ Namespace.all,
    (patterns.take ns.skipped).all (·.clash ns.lead) = true ∧
      patterns.all (·.inLine ns.lead) = true ∧
      advance (items ns.source) ns.lead = some [.group, .char ':', .group] := by
  have hpatterns : ∀ ns ∈ Namespace.all, (patterns.take ns.skipped).all (·.clash ns.lead) = true ∧
      patterns.all (·.inLine ns.lead) = true := by
    -- the kernel is slow to read the characters of a string, so the sources become lists first
    simp only [patterns, cases, part1, part2, part3, part4, part5, contextual, indexed,
      withDefault, withoutDefault, case1, case2, case3, fixed, dates, List.map_append,
      List.map_cons, List.map_nil, items_append]
    repeat rw [items_ofList]
    repeat rw [String.toList_ofList]
    decide +kernel
  intro ns hns
  refine ⟨(hpatterns ns hns).1, (hpatterns ns hns).2, ?_⟩
  cases ns <;> simp only [Namespace.source, Namespace.lead, Namespace.text, items_append] <;>
    repeat rw [items_ofList]
  all_goals repeat rw [String.toList_ofList]
  all_goals rfl

section Reached

variable {P : ElPlatform} {ns : Namespace} {name default : Str}

/-- The cases from the first one on that does not differ from the expression. -/
theorem exists_drop_cases (P : ElPlatform) (ns : Namespace) :
    ∃ rest, (cases P).drop ns.skipped = ns.before P ++ ns.own P :: rest := by
  cases ns <;> exact ⟨_, rfl⟩

theorem colon_mem (name default : Str) : ':' ∈ name ++ ':' :: default :=
  List.mem_append_right name List.mem_cons_self

theorem exists_evaluate_eq (P : ElPlatform) (ns : Namespace) (name default : Str) :
    ∃ rest, ∀ w, evaluate P w (ns.expression name default) =
      firstCase w (ns.expression name default) (ns.before P ++ ns.own P :: rest) := by
  obtain ⟨rest, hdrop⟩ := exists_drop_cases P ns
  refine ⟨rest, fun w => ?_⟩
  have hskipped : ∀ c ∈ (cases P).take ns.skipped,
      c.pattern.captures (ns.expression name default) = none := by
    intro c hc
    have hpattern : c.pattern ∈ patterns.take ns.skipped := by
      rw [← map_pattern_cases P, ← List.map_take]
      exact List.mem_map_of_mem hc
    have hclash := (patterns_spec ns ns.mem_all).1
    exact ElPattern.captures_of_clash (List.all_eq_true.mp hclash _ hpattern)
      (colon_mem name default)
  have happend := firstCase_append (w := w) hskipped ((cases P).drop ns.skipped)
  rwa [List.take_append_drop, hdrop] at happend

/-- No case takes an expression of several lines. -/
theorem evaluate_of_lineTerminator {w : ElWorld} {c : Char} (hc : isLineTerminator c = true)
    (hmem : c ∈ name ++ default) : evaluate P w (ns.expression name default) = none := by
  apply firstCase_of_none
  intro d hd
  have hpattern : d.pattern ∈ patterns := by
    rw [← map_pattern_cases P]
    exact List.mem_map_of_mem hd
  have hinLine := (patterns_spec ns ns.mem_all).2.1
  apply ElPattern.captures_of_inLine (List.all_eq_true.mp hinLine _ hpattern)
    (colon_mem name default) hc
  exact (List.mem_append.mp hmem).elim (List.mem_append_left _) fun h =>
    List.mem_append_right name (List.mem_cons_of_mem _ h)

theorem map_pattern_before (P : ElPlatform) (ns : Namespace) :
    (ns.before P).map (·.pattern) = (ns.before plainPlatform).map (·.pattern) := by
  cases ns <;> rfl

theorem captured_eq_true_iff {expr : Str} :
    ns.captured expr = true ↔ ∃ c ∈ ns.before P, c.pattern.captures expr ≠ none := by
  have hplain : ns.captured expr =
      ((ns.before plainPlatform).map (·.pattern)).any fun pattern =>
        (pattern.captures expr).isSome := by
    rw [List.any_map]
    rfl
  rw [hplain, ← map_pattern_before P, List.any_map, List.any_eq_true]
  simp only [Function.comp_apply, Option.isSome_iff_ne_none]

/-- The default begins behind the last colon. -/
theorem evaluate_of_last {w : ElWorld} {field dv : Str} (hallowed : ns.allowed w = true)
    (hcaptured : ns.captured (ns.expression name default) = false)
    (hlast : name ++ ':' :: default = field ++ ':' :: dv) (hcolon : ':' ∉ dv)
    (hfield : ∀ c ∈ field, isLineTerminator c = false)
    (hdv : ∀ c ∈ dv, isLineTerminator c = false) :
    evaluate P w (ns.expression name default) = some (orDefault (ns.look P w field) dv) := by
  obtain ⟨rest, hevaluate⟩ := exists_evaluate_eq P ns name default
  have hbefore : ∀ c ∈ ns.before P, c.pattern.captures (ns.expression name default) = none := by
    intro c hc
    by_contra hne
    rw [captured_eq_true_iff.mpr ⟨c, hc, hne⟩] at hcaptured
    cases hcaptured
  have hown : (ns.own P).pattern.captures (ns.expression name default) = some [field, dv] := by
    have hadvance := (patterns_spec ns ns.mem_all).2.2
    show unapply (items ns.source) (ns.lead ++ (name ++ ':' :: default)) = _
    rw [unapply_of_advance hadvance, hlast]
    exact unapply_pair hcolon hfield hdv
  have hrun : (ns.own P).run w [field, dv] = some (orDefault (ns.look P w field) dv) := by
    show (if ns.allowed w then _ else none) = _
    rw [if_pos hallowed]
  rw [hevaluate w, firstCase_append hbefore, firstCase, hown, Option.bind_some, hrun,
    Option.some_or]

end Reached

end GlobalExpressionLanguage

end Otoroshi
