/-
# Defaults

An expression `<namespace>.<name>:<default>` is to give the value of the name in the namespace, and
the default where there is none. `verbatim_iff` says of every expression whether it does: nothing in it
ends a line, the default has no colon, and no pattern of the context takes it before.
-/

import Otoroshi.El.Contextual

namespace Otoroshi

namespace GlobalExpressionLanguage

open Captures

/-! ## Worlds -/

/-- Objects in each other. -/
def nest : List Str → Str → JsValue
  | [], value => .string value
  | part :: parts, value => .object [(part, nest parts value)]

def withPath (name value : Str) : JsValue := nest (split '.' name) value

/-- A name without dots is no path in a token. -/
def withName (name value : Str) : JsValue :=
  if '.' ∈ name then withPath name value else .object [(name, .string value)]

/-- Nothing is known, and everything may be read. -/
def bare : ElWorld := { allowEnvAccess := true, allowConfigAccess := true }

/-- Only the name has a value. -/
def Namespace.world (name value : Str) : Namespace → ElWorld
  | serviceMetadata => { service := some { metadata := single name value } }
  | routeMetadata => { route := some { metadata := single name value } }
  | reqHeaders => { req := some { headers := single name value } }
  | reqQuery => { req := some { query := single name value } }
  | reqCookies => { req := some { cookies := single name value } }
  | reqPathparams => { pathParams := some (single name value) }
  | apikeyMetadata => { apiKey := some { metadata := [(name, value)] } }
  | token => { context := single name value }
  | inJwt => { inputJwtToken := some (withName name value) }
  | outJwt => { outputJwtToken := some (withName name value) }
  | env => { allowEnvAccess := true, getenv := single name value }
  | config => { allowConfigAccess := true, config := fun other => .ok (single name value other) }
  | ctx => { context := single name value }
  | userTokens => { user := some { token := .object [(name, .string value)] } }
  | userMetadata => { user := some { otoroshiData := some (withPath name value) } }
  | userProfile => { user := some { profile := withPath name value } }
  | consumerMetadata => { user := some { otoroshiData := some (withPath name value) } }

section Worlds

variable (P : ElPlatform) (name value : Str)

theorem foldlM_nest (parts : List Str) :
    parts.foldlM (atStep P) (some (nest parts value)) = .ok (some (.string value)) := by
  induction parts with
  | nil => rfl
  | cons part parts ih =>
      have hstep : atStep P (some (nest (part :: parts) value)) part =
          .ok (some (nest parts value)) := by
        rw [nest, atStep, List.lookup_cons_self]
      rw [List.foldlM_cons, hstep]
      exact ih

theorem lookAt_withPath : lookAt P name (withPath name value) = .ok (some value) := by
  rw [lookAt, jsonAt, withPath, foldlM_nest]
  rfl

theorem lookJwt_withName : lookJwt P name (some (withName name value)) = .ok (some value) := by
  rw [lookJwt, withName]
  split_ifs
  · exact lookAt_withPath P name value
  · rw [selectField, List.lookup_cons_self]
    rfl

theorem look_world (ns : Namespace) : ns.look P (ns.world name value) name = .ok (some value) := by
  cases ns with
  | inJwt => exact lookJwt_withName P name value
  | outJwt => exact lookJwt_withName P name value
  | userMetadata => exact lookAt_withPath P name value
  | userProfile => exact lookAt_withPath P name value
  | consumerMetadata => exact lookAt_withPath P name value
  | apikeyMetadata => exact congrArg Except.ok List.lookup_cons_self
  | userTokens =>
      have hselect : selectField name (.object [(name, .string value)]) = some (.string value) :=
        List.lookup_cons_self
      show Except.ok ((selectField name (.object [(name, .string value)])).bind _) = _
      rw [hselect]
      rfl
  | _ => exact congrArg Except.ok (single_self name value)

theorem look_bare (ns : Namespace) : ns.look P bare name = .ok none := by
  cases ns <;> rfl

theorem allowed_world (ns : Namespace) : ns.allowed (ns.world name value) = true := by
  cases ns <;> rfl

theorem allowed_bare (ns : Namespace) : ns.allowed bare = true := by
  cases ns <;> rfl

end Worlds

/-! ## Taken verbatim -/

/-- The default is what stands behind the last colon, and the expression comes to its case. -/
def Verbatim (ns : Namespace) (name default : Str) : Prop :=
  (∀ c ∈ name ++ default, isLineTerminator c = false) ∧ ':' ∉ default ∧
    ns.captured (ns.expression name default) = false

instance (ns : Namespace) (name default : Str) : Decidable (Verbatim ns name default) :=
  have := List.decidableBAll (fun c => isLineTerminator c = false) (name ++ default)
  instDecidableAnd

section Verbatim

variable {P : ElPlatform} {ns : Namespace} {name default : Str}

theorem Verbatim.apply_eq_iff (h : Verbatim ns name default)
    (hpart : IsPart (ns.expression name default)) {w : ElWorld} (hallowed : ns.allowed w = true) :
    apply P w (quoted (ns.expression name default)) = ns.wanted P w name default ↔
      ns.look P w name ≠ .error () := by
  have hname : ∀ c ∈ name, isLineTerminator c = false := fun c hc =>
    h.1 c (List.mem_append_left _ hc)
  have hdefault : ∀ c ∈ default, isLineTerminator c = false := fun c hc =>
    h.1 c (List.mem_append_right _ hc)
  rw [apply_of_isPart hpart, written,
    evaluate_of_last hallowed h.2.2 rfl h.2.1 hname hdefault, Namespace.wanted]
  cases ns.look P w name with
  | ok found => exact iff_of_true (by cases found <;> rfl) (by simp)
  | error _ =>
      refine iff_of_false (fun heq => ?_) fun hne => hne rfl
      -- the value is left as it was, and the default is only a part of it
      have hlength : (quoted (ns.expression name default)).length = default.length :=
        congrArg List.length heq
      simp [quoted, Namespace.expression] at hlength
      omega

/-- The expression gives in every world what is wanted, unless the lookup throws. -/
def TakenVerbatim (P : ElPlatform) (ns : Namespace) (name default : Str) : Prop :=
  ∀ w, ns.allowed w = true →
    (apply P w (quoted (ns.expression name default)) = ns.wanted P w name default ↔
      ns.look P w name ≠ .error ())

namespace TakenVerbatim

theorem written_eq (hpart : IsPart (ns.expression name default))
    (h : TakenVerbatim P ns name default) {w : ElWorld} (hallowed : ns.allowed w = true)
    {found : Option Str} (hlook : ns.look P w name = .ok found) :
    written P w (ns.expression name default) = found.getD default := by
  have heq := (h w hallowed).mpr (by rw [hlook]; exact nofun)
  rw [apply_of_isPart hpart, Namespace.wanted, hlook] at heq
  rw [heq]
  cases found <;> rfl

/-- A value is found on one line only. -/
theorem inLine (hpart : IsPart (ns.expression name default))
    (h : TakenVerbatim P ns name default) :
    ∀ c ∈ name ++ default, isLineTerminator c = false := by
  intro c hmem
  by_contra hc
  have heq := h.written_eq hpart (allowed_world name [] ns) (look_world P name [] ns)
  rw [written, evaluate_of_lineTerminator (eq_true_of_ne_false hc) hmem] at heq
  cases heq

/-- A pattern of the context before gives something else in some context. -/
theorem captured_eq_false (hpart : IsPart (ns.expression name default))
    (h : TakenVerbatim P ns name default) : ns.captured (ns.expression name default) = false := by
  by_contra hcaptured
  have hfits := (captured_eq_true_iff (P := P)).mp (eq_true_of_ne_false hcaptured)
  obtain ⟨kind, hkind, hbefore, hlead, hallowed, hlook⟩ : ∃ kind ∈ ["token", "ctx"],
      ns.before P = (contextual P kind).dropLast ∧ ns.lead = kind.toList ++ ['.'] ∧
        (∀ w, ns.allowed w = true) ∧ ∀ w, ns.look P w name = .ok (w.context name) := by
    cases ns with
    | token => exact ⟨"token", by decide, rfl, rfl, fun _ => rfl, fun _ => rfl⟩
    | ctx => exact ⟨"ctx", by decide, rfl, rfl, fun _ => rfl, fun _ => rfl⟩
    | _ =>
        obtain ⟨c, hc, -⟩ := hfits
        cases hc
  have hspoils : ∀ c ∈ ns.before P, Spoils kind name default c := by
    rw [hbefore]
    exact fun c hc => spoils_of_mem hkind hc
  have hexpression : ns.expression name default =
      kind.toList ++ ['.'] ++ (name ++ ':' :: default) := by
    rw [Namespace.expression, hlead]
  obtain ⟨rest, hevaluate⟩ := exists_evaluate_eq P ns name default
  rw [hexpression] at hfits hevaluate
  obtain ⟨c, hc, captures, hcaptures, hfirst⟩ := exists_firstCase_eq hfits
    (fun c hc captures hcaptures => (hspoils c hc captures hcaptures).1) (ns.own P :: rest)
  obtain ⟨-, context, hcontext⟩ := hspoils c hc captures hcaptures
  obtain ⟨text, htext, hne⟩ := hcontext { context := context } rfl
  have heq := h.written_eq hpart (hallowed { context := context }) (hlook _)
  rw [hexpression, written, hevaluate, hfirst, htext] at heq
  exact hne heq

/-- The default is what stands behind the last colon. -/
theorem colon_notMem (hpart : IsPart (ns.expression name default))
    (h : TakenVerbatim P ns name default) : ':' ∉ default := by
  intro hmem
  obtain ⟨after, before, hreverse, hafter⟩ :=
    List.eq_append_cons_of_mem (List.mem_reverse.mpr hmem)
  have hdefault : default = before.reverse ++ ':' :: after.reverse := by
    rw [← List.reverse_reverse default, hreverse]
    simp
  have hlast : name ++ ':' :: default =
      (name ++ ':' :: before.reverse) ++ ':' :: after.reverse := by
    rw [hdefault, List.append_assoc, List.cons_append]
  have hinLine : ∀ c ∈ name ++ ':' :: default, isLineTerminator c = false := by
    intro c hc
    rw [List.mem_append, List.mem_cons, or_left_comm, ← List.mem_append] at hc
    rcases hc with rfl | hc
    · rfl
    · exact h.inLine hpart c hc
  rw [hlast] at hinLine
  have heq := h.written_eq hpart (allowed_bare ns) (look_bare P name ns)
  rw [written, evaluate_of_last (allowed_bare ns) (h.captured_eq_false hpart) hlast
    (by rwa [List.mem_reverse]) (fun c hc => hinLine c (List.mem_append_left _ hc))
    (fun c hc => hinLine c (List.mem_append_right _ (List.mem_cons_of_mem _ hc))), look_bare] at heq
  have hlength := congrArg List.length (heq.trans hdefault)
  simp [orDefault, Found.text?] at hlength
  omega

end TakenVerbatim

/-- When a default is taken verbatim. -/
theorem verbatim_iff (P : ElPlatform) (ns : Namespace) (name default : Str)
    (hpart : IsPart (ns.expression name default)) :
    TakenVerbatim P ns name default ↔ Verbatim ns name default :=
  ⟨fun h => ⟨h.inLine hpart, h.colon_notMem hpart, h.captured_eq_false hpart⟩,
    fun h _ => h.apply_eq_iff hpart⟩

end Verbatim

/-- `${req.headers.X-Tenant:none}` -/
theorem verbatim_iff_example :
    Verbatim .reqHeaders "X-Tenant".toList "none".toList ∧
      TakenVerbatim plainPlatform .reqHeaders "X-Tenant".toList "none".toList := by
  have h : Verbatim .reqHeaders "X-Tenant".toList "none".toList := by decide +kernel
  exact ⟨h, (verbatim_iff plainPlatform .reqHeaders "X-Tenant".toList "none".toList
    (by decide)).mpr h⟩

/-- `${req.headers.X-Callback:http://localhost}` -/
def callbackExpression : Str :=
  Namespace.reqHeaders.expression "X-Callback".toList "http://localhost".toList

/-- The scheme of the default is taken for a part of the name. -/
theorem exists_default_cut :
    IsPart callbackExpression ∧
      Namespace.reqHeaders.look plainPlatform bare "X-Callback".toList = .ok none ∧
      apply plainPlatform bare (quoted callbackExpression) = "//localhost".toList := by
  have hpart : IsPart callbackExpression := by decide
  refine ⟨hpart, rfl, ?_⟩
  rw [apply_of_isPart hpart]
  decide +kernel

end GlobalExpressionLanguage

end Otoroshi
