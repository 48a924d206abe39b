/-
# Admission by shared counters

Callers share some counters, and each counter may have a limit. A caller looks at all
the counters at once and is admitted if there is room under every limit. A caller that
is admitted then adds one to each counter, one counter at a time, and callers come
between.

So the counters lag behind the admissions, by the calls that are admitted and have not
counted yet. `Counted` says by how much, and what follows is how far a limit can be
passed: by no more than the callers that can be in flight beside the last one admitted.
-/

import Mathlib.Data.List.Nodup
import Mathlib.Logic.Function.Basic
import Mathlib.Logic.Relation
import Mathlib.Order.MinMax

namespace Otoroshi

/-- How far a call in flight is. -/
inductive Phase (ι : Type)
  | arrived
  /-- admitted, with these counters still to count -/
  | counting (remaining : List ι)

/-- What is shared, the calls in flight, and the decisions so far. -/
structure Admission (ω ι κ : Type) where
  shared : ω
  inFlight : List (κ × Phase ι)
  decisions : List (κ × Bool)

/-- What a call does with what is shared: it looks at the counters, counts one of them,
or tends to something that is no counter. -/
structure Gate (ω ι : Type) where
  look : ω → Bool → ω → Prop
  count : ι → ω → ω → Prop
  tend : ω → ω → Prop
  counters : List ι

/-- What counting needs of a gate: the answer is the verdict on the levels at which the
counters stand, a counter goes up by one as long as it is below the top, and nothing
else moves one. Every counter is counted once. -/
structure Gate.Lawful {ω ι : Type} [DecidableEq ι] (gate : Gate ω ι)
    (stand : (ι → Int) → ω → Prop) (verdict : (ι → Int) → Bool) (top : Int) : Prop where
  look : ∀ levels shared answer shared', stand levels shared → gate.look shared answer shared' →
    answer = verdict levels ∧ stand levels shared'
  count : ∀ levels shared i shared', stand levels shared → levels i < top →
    gate.count i shared shared' → stand (Function.update levels i (levels i + 1)) shared'
  tend : ∀ levels shared shared', stand levels shared → gate.tend shared shared' →
    stand levels shared'
  once : ∀ i, gate.counters.count i = 1

/-- The least of the limits under which the verdict looks for room, for levels up to the
top. -/
structure LeastLimit {ι : Type} (verdict : (ι → Int) → Bool) (least top : Int) : Prop where
  exceeded : ∃ i, ∀ levels : ι → Int, (∀ j, 0 ≤ levels j ∧ levels j ≤ top) →
    verdict levels = true → levels i < least
  room : ∀ levels : ι → Int, (∀ j, 0 ≤ levels j ∧ levels j ≤ top) → (∀ j, levels j < least) →
    verdict levels = true

namespace Admission

variable {ω ι κ : Type}

/-- A step of one caller, with at most some calls in flight. No caller comes twice. -/
inductive Step [DecidableEq ι] (gate : Gate ω ι) (atMost : Nat) (caller : κ) :
    Admission ω ι κ → Admission ω ι κ → Prop
  | arrive {shared inFlight decisions} (hnew : caller ∉ inFlight.map Prod.fst)
      (hundecided : caller ∉ decisions.map Prod.fst) (hroom : inFlight.length < atMost) :
      Step gate atMost caller ⟨shared, inFlight, decisions⟩
        ⟨shared, (caller, .arrived) :: inFlight, decisions⟩
  | accept {shared shared' before after decisions} (hlook : gate.look shared true shared') :
      Step gate atMost caller ⟨shared, before ++ (caller, .arrived) :: after, decisions⟩
        ⟨shared', before ++ (caller, .counting gate.counters) :: after,
          decisions ++ [(caller, true)]⟩
  | reject {shared shared' before after decisions} (hlook : gate.look shared false shared') :
      Step gate atMost caller ⟨shared, before ++ (caller, .arrived) :: after, decisions⟩
        ⟨shared', before ++ after, decisions ++ [(caller, false)]⟩
  | count {shared shared' before after decisions remaining i} (hremaining : i ∈ remaining)
      (hcount : gate.count i shared shared') :
      Step gate atMost caller ⟨shared, before ++ (caller, .counting remaining) :: after, decisions⟩
        ⟨shared', before ++ (caller, .counting (remaining.erase i)) :: after, decisions⟩
  | tend {shared shared' before after decisions remaining} (htend : gate.tend shared shared') :
      Step gate atMost caller ⟨shared, before ++ (caller, .counting remaining) :: after, decisions⟩
        ⟨shared', before ++ (caller, .counting remaining) :: after, decisions⟩
  | leave {shared before after decisions} :
      Step gate atMost caller ⟨shared, before ++ (caller, .counting []) :: after, decisions⟩
        ⟨shared, before ++ after, decisions⟩

/-- A run, whoever makes its steps. -/
def Reaches [DecidableEq ι] (gate : Gate ω ι) (atMost : Nat) :
    Admission ω ι κ → Admission ω ι κ → Prop :=
  Relation.ReflTransGen fun state next => ∃ caller, Step gate atMost caller state next

/-- Nobody has come yet. -/
def start (κ ι : Type) (shared : ω) : Admission ω ι κ := ⟨shared, [], []⟩

/-! ## Who was admitted -/

/-- The calls that were admitted. -/
def admitted (decisions : List (κ × Bool)) : Nat := decisions.countP Prod.snd

theorem admitted_append (decisions : List (κ × Bool)) (caller : κ) (answer : Bool) :
    admitted (decisions ++ [(caller, answer)]) = admitted decisions + answer.toNat := by
  rw [admitted, List.countP_append, admitted]
  cases answer <;> rfl

/-- What a call in flight has to do with the decisions: it waits for one, or it was
admitted. -/
def Phase.Fits (caller : κ) (decisions : List (κ × Bool)) : Phase ι → Prop
  | .arrived => caller ∉ decisions.map Prod.fst
  | .counting _ => (caller, true) ∈ decisions

/-- The calls in flight are those of different callers, no call is decided twice, and
every call in flight fits the decisions. -/
structure Filed (inFlight : List (κ × Phase ι)) (decisions : List (κ × Bool)) : Prop where
  callers : (inFlight.map Prod.fst).Nodup
  decided : (decisions.map Prod.fst).Nodup
  fits : ∀ call ∈ inFlight, Phase.Fits call.1 decisions call.2

theorem filed_nil : Filed ([] : List (κ × Phase ι)) [] where
  callers := List.nodup_nil
  decided := List.nodup_nil
  fits _ h := absurd h List.not_mem_nil

section Filed

variable {before after : List (κ × Phase ι)} {decisions : List (κ × Bool)} {caller : κ}
  {phase phase' : Phase ι}

/-- The decision on one call is none on another. -/
theorem Phase.Fits.decide {other : κ} (h : Phase.Fits other decisions phase)
    (hne : other ≠ caller) (answer : Bool) :
    Phase.Fits other (decisions ++ [(caller, answer)]) phase := by
  cases phase with
  | arrived =>
      rw [Fits, List.map_append, List.mem_append]
      rintro (hother | hother)
      · exact h hother
      · exact hne (List.mem_singleton.mp hother)
  | counting remaining => exact List.mem_append_left _ h

/-- A call that goes on. -/
theorem Filed.replace (h : Filed (before ++ (caller, phase) :: after) decisions)
    (hphase : Phase.Fits caller decisions phase') :
    Filed (before ++ (caller, phase') :: after) decisions where
  callers := by
    have hcallers := h.callers
    rw [List.map_append, List.map_cons] at hcallers ⊢
    exact hcallers
  decided := h.decided
  fits := by
    have hfits := h.fits
    rw [List.forall_mem_append, List.forall_mem_cons] at hfits ⊢
    exact ⟨hfits.1, hphase, hfits.2.2⟩

/-- A call that leaves. -/
theorem Filed.remove (h : Filed (before ++ (caller, phase) :: after) decisions) :
    Filed (before ++ after) decisions where
  callers := by
    have hsub : (before ++ after).Sublist (before ++ (caller, phase) :: after) :=
      (List.Sublist.refl before).append (List.sublist_cons_self _ _)
    exact h.callers.sublist (hsub.map Prod.fst)
  decided := h.decided
  fits := by
    have hfits := h.fits
    rw [List.forall_mem_append, List.forall_mem_cons] at hfits
    rw [List.forall_mem_append]
    exact ⟨hfits.1, hfits.2.2⟩

/-- A call that is decided and leaves. -/
theorem Filed.decide (h : Filed (before ++ (caller, .arrived) :: after) decisions)
    (answer : Bool) : Filed (before ++ after) (decisions ++ [(caller, answer)]) where
  callers := h.remove.callers
  decided := by
    rw [List.map_append, List.nodup_append]
    refine ⟨h.decided, List.nodup_singleton _, ?_⟩
    intro other hother other' hother' heq
    rw [heq, List.mem_singleton.mp hother'] at hother
    exact h.fits (caller, .arrived) List.mem_append_cons_self hother
  fits := by
    intro call hcall
    apply (h.remove.fits call hcall).decide
    intro heq
    have hcallers := h.callers
    rw [List.map_append, List.map_cons, List.nodup_middle, ← List.map_append, List.nodup_cons]
      at hcallers
    rw [← heq] at hcallers
    have hmem : call.1 ∈ (before ++ after).map Prod.fst := List.mem_map_of_mem hcall
    exact hcallers.1 hmem

/-- A call that is admitted and goes on. -/
theorem Filed.accept {remaining : List ι}
    (h : Filed (before ++ (caller, .arrived) :: after) decisions) :
    Filed (before ++ (caller, .counting remaining) :: after)
      (decisions ++ [(caller, true)]) where
  callers := by
    have hcallers := h.callers
    rw [List.map_append, List.map_cons] at hcallers ⊢
    exact hcallers
  decided := (h.decide true).decided
  fits := by
    have hfits := (h.decide true).fits
    rw [List.forall_mem_append] at hfits
    rw [List.forall_mem_append, List.forall_mem_cons]
    exact ⟨hfits.1, List.mem_append_right _ (List.mem_singleton_self _), hfits.2⟩

/-- No call is both admitted and rejected. -/
theorem Filed.not_mem_of_admitted {inFlight : List (κ × Phase ι)} (h : Filed inFlight decisions)
    (hadmitted : (caller, true) ∈ decisions) : (caller, false) ∉ decisions := by
  intro hrejected
  have hsame := List.inj_on_of_nodup_map h.decided hadmitted hrejected rfl
  cases hsame

end Filed

variable [DecidableEq ι] {gate : Gate ω ι} {atMost : Nat} {caller : κ}
  {state next last : Admission ω ι κ}

theorem Filed.step (h : Filed state.inFlight state.decisions)
    (hstep : Step gate atMost caller state next) : Filed next.inFlight next.decisions := by
  cases hstep with
  | arrive hnew hundecided hroom =>
      exact ⟨List.nodup_cons.mpr ⟨hnew, h.callers⟩, h.decided,
        List.forall_mem_cons.mpr ⟨hundecided, h.fits⟩⟩
  | accept hlook => exact h.accept
  | reject hlook => exact h.decide false
  | count hremaining hcount => exact h.replace (h.fits _ List.mem_append_cons_self)
  | tend htend => exact h.replace (h.fits _ List.mem_append_cons_self)
  | leave => exact h.remove

theorem Filed.reaches (h : Filed state.inFlight state.decisions)
    (hrun : Reaches gate atMost state last) : Filed last.inFlight last.decisions := by
  induction hrun with
  | refl => exact h
  | tail _ hstep ih =>
      obtain ⟨caller, hstep⟩ := hstep
      exact ih.step hstep

/-- Nothing that was decided is taken back. -/
theorem Step.decisions_subset (h : Step gate atMost caller state next) :
    state.decisions ⊆ next.decisions := by
  cases h with
  | accept => exact List.subset_append_left _ _
  | reject => exact List.subset_append_left _ _
  | _ => exact List.Subset.refl _

theorem Reaches.decisions_subset (h : Reaches gate atMost state last) :
    state.decisions ⊆ last.decisions := by
  induction h with
  | refl => exact List.Subset.refl _
  | tail _ hstep ih =>
      obtain ⟨caller, hstep⟩ := hstep
      exact List.Subset.trans ih hstep.decisions_subset

/-! ## How the counters lag behind -/

/-- What a call still has to add to a counter. -/
def Phase.lag (i : ι) : Phase ι → Nat
  | .arrived => 0
  | .counting remaining => remaining.count i

@[simp]
theorem Phase.lag_arrived (i : ι) : Phase.lag i .arrived = 0 := rfl

@[simp]
theorem Phase.lag_counting (i : ι) (remaining : List ι) :
    Phase.lag i (.counting remaining) = remaining.count i := rfl

/-- What the calls in flight still have to add to a counter. -/
def lag (i : ι) : List (κ × Phase ι) → Nat
  | [] => 0
  | call :: inFlight => Phase.lag i call.2 + lag i inFlight

@[simp]
theorem lag_cons (i : ι) (caller : κ) (phase : Phase ι) (inFlight : List (κ × Phase ι)) :
    lag i ((caller, phase) :: inFlight) = Phase.lag i phase + lag i inFlight := rfl

@[simp]
theorem lag_append (i : ι) (before after : List (κ × Phase ι)) :
    lag i (before ++ after) = lag i before + lag i after := by
  induction before with
  | nil => exact (Nat.zero_add _).symm
  | cons call before ih => rw [List.cons_append, lag, lag, ih, Nat.add_assoc]

/-- One of the calls, and the others. -/
theorem lag_middle (i : ι) (before after : List (κ × Phase ι)) (caller : κ) (phase : Phase ι) :
    lag i (before ++ (caller, phase) :: after) = Phase.lag i phase + lag i (before ++ after) := by
  rw [lag_append, lag_cons, lag_append, Nat.add_left_comm]

theorem lag_le_length {i : ι} {inFlight : List (κ × Phase ι)}
    (h : ∀ call ∈ inFlight, ∀ j, Phase.lag j call.2 ≤ 1) : lag i inFlight ≤ inFlight.length := by
  induction inFlight with
  | nil => exact Nat.le_refl 0
  | cons call inFlight ih =>
      rw [List.forall_mem_cons] at h
      have hcall := h.1 i
      have hrest := ih h.2
      rw [lag, List.length_cons]
      omega

/-- With what the calls in flight still have to add, every counter stands at the number
of calls that were admitted. -/
structure Counted (stand : (ι → Int) → ω → Prop) (levels : ι → Int)
    (state : Admission ω ι κ) : Prop where
  stands : stand levels state.shared
  total : ∀ i, levels i + lag i state.inFlight = admitted state.decisions
  nonneg : ∀ i, 0 ≤ levels i
  once : ∀ call ∈ state.inFlight, ∀ i, Phase.lag i call.2 ≤ 1

variable {stand : (ι → Int) → ω → Prop} {verdict : (ι → Int) → Bool} {top least : Int}
  {levels : ι → Int}

theorem Counted.level_le (h : Counted stand levels state) (i : ι) :
    levels i ≤ admitted state.decisions := by
  have htotal := h.total i
  omega

section Counted

variable {shared shared' : ω} {before after : List (κ × Phase ι)}
  {decisions decisions' : List (κ × Bool)} {phase phase' : Phase ι} {levels' : ι → Int}

/-- A call that goes on, where what it adds and has to add is what it had to add, and one
for each counter if it is admitted. -/
theorem Counted.replace
    (h : Counted stand levels ⟨shared, before ++ (caller, phase) :: after, decisions⟩)
    (hstands : stand levels' shared') (hnonneg : ∀ i, 0 ≤ levels' i)
    (htotal : ∀ i, levels' i + Phase.lag i phase' + admitted decisions =
      levels i + Phase.lag i phase + admitted decisions')
    (honce : ∀ i, Phase.lag i phase' ≤ 1) :
    Counted stand levels' ⟨shared', before ++ (caller, phase') :: after, decisions'⟩ where
  stands := hstands
  total := by
    intro i
    have hbefore := h.total i
    have hadded := htotal i
    rw [lag_middle] at hbefore ⊢
    push_cast at hbefore ⊢
    omega
  nonneg := hnonneg
  once := by
    have hbefore := h.once
    rw [List.forall_mem_append, List.forall_mem_cons] at hbefore ⊢
    exact ⟨hbefore.1, honce, hbefore.2.2⟩

/-- A call that has nothing to add and leaves. -/
theorem Counted.remove
    (h : Counted stand levels ⟨shared, before ++ (caller, phase) :: after, decisions⟩)
    (hstands : stand levels shared') (hphase : ∀ i, Phase.lag i phase = 0)
    (hadmitted : admitted decisions' = admitted decisions) :
    Counted stand levels ⟨shared', before ++ after, decisions'⟩ where
  stands := hstands
  total := by
    intro i
    have hbefore := h.total i
    rw [lag_middle, hphase i, Nat.zero_add] at hbefore
    rw [hadmitted]
    exact hbefore
  nonneg := h.nonneg
  once := by
    have hbefore := h.once
    rw [List.forall_mem_append, List.forall_mem_cons] at hbefore
    rw [List.forall_mem_append]
    exact ⟨hbefore.1, hbefore.2.2⟩

/-- A call that adds one to a counter. -/
theorem Counted.count {remaining : List ι} {i : ι}
    (h : Counted stand levels ⟨shared, before ++ (caller, .counting remaining) :: after, decisions⟩)
    (hremaining : i ∈ remaining)
    (hstands : stand (Function.update levels i (levels i + 1)) shared') :
    Counted stand (Function.update levels i (levels i + 1))
      ⟨shared', before ++ (caller, .counting (remaining.erase i)) :: after, decisions⟩ := by
  have hpending : 1 ≤ remaining.count i := List.count_pos_iff.mpr hremaining
  have honce := h.once _ List.mem_append_cons_self
  apply h.replace hstands
  · intro j
    have hj := h.nonneg j
    by_cases hij : j = i
    · subst hij
      rw [Function.update_self]
      omega
    · rw [Function.update_of_ne hij]
      exact hj
  · intro j
    rw [Phase.lag_counting, Phase.lag_counting, List.count_erase]
    by_cases hij : j = i
    · subst hij
      rw [Function.update_self, if_pos (beq_self_eq_true j)]
      omega
    · rw [Function.update_of_ne hij, if_neg (by simpa using Ne.symm hij), Nat.sub_zero]
  · intro j
    exact (List.erase_sublist.count_le j).trans (honce j)

end Counted

theorem Counted.step (hgate : gate.Lawful stand verdict top) (h : Counted stand levels state)
    (htop : admitted state.decisions ≤ top) (hstep : Step gate atMost caller state next) :
    ∃ levels', Counted stand levels' next := by
  cases hstep with
  | arrive hnew hundecided hroom =>
      refine ⟨levels, h.stands, ?_, h.nonneg, ?_⟩
      · intro i
        rw [lag_cons, Phase.lag_arrived, Nat.zero_add]
        exact h.total i
      · exact List.forall_mem_cons.mpr ⟨fun i => Nat.zero_le 1, h.once⟩
  | accept hlook =>
      use levels
      apply h.replace (hgate.look _ _ _ _ h.stands hlook).2 h.nonneg
      · intro i
        rw [Phase.lag_arrived, Phase.lag_counting, hgate.once i, admitted_append, Bool.toNat_true]
        push_cast
        omega
      · intro i
        exact (hgate.once i).le
  | reject hlook =>
      use levels
      apply h.remove (hgate.look _ _ _ _ h.stands hlook).2 fun i => rfl
      rw [admitted_append, Bool.toNat_false, Nat.add_zero]
  | @count shared shared' before after decisions remaining i hremaining hcount =>
      have hpending : 1 ≤ remaining.count i := List.count_pos_iff.mpr hremaining
      have hbelow : levels i < top := by
        have hbefore := h.total i
        dsimp only at htop
        rw [lag_middle, Phase.lag_counting] at hbefore
        push_cast at hbefore
        omega
      exact ⟨_, h.count hremaining (hgate.count _ _ _ _ h.stands hbelow hcount)⟩
  | tend htend =>
      exact ⟨levels, hgate.tend _ _ _ h.stands htend, h.total, h.nonneg, h.once⟩
  | leave => exact ⟨levels, h.remove h.stands (fun i => List.count_nil) rfl⟩

/-! ## How far a limit is passed -/

theorem counted_start {shared : ω} (h : stand (fun _ => 0) shared) :
    Counted stand (fun _ => 0) (start κ ι shared) where
  stands := h
  total _ := rfl
  nonneg _ := Int.le_refl 0
  once _ h := absurd h List.not_mem_nil

/-- The counters are counted, and the least limit is passed by no more than the calls in
flight beside one. -/
structure Within (stand : (ι → Int) → ω → Prop) (least : Int) (atMost : Nat)
    (state : Admission ω ι κ) : Prop where
  counted : ∃ levels, Counted stand levels state
  inFlight : state.inFlight.length ≤ atMost
  passed : (admitted state.decisions : Int) ≤ max 0 (least + atMost - 1)

/-- A call is admitted below the least limit, and no other call in flight lags behind by
more than one. -/
theorem Counted.passed_of_accept {shared : ω} {before after : List (κ × Phase ι)}
    {decisions : List (κ × Bool)} (hleast : LeastLimit verdict least top)
    (h : Counted stand levels ⟨shared, before ++ (caller, .arrived) :: after, decisions⟩)
    (htop : (admitted decisions : Int) ≤ top) (hverdict : verdict levels = true) :
    (admitted decisions : Int) + 1 ≤ least + (before.length + after.length : Nat) := by
  obtain ⟨i, hexceeded⟩ := hleast.exceeded
  have hbelow : levels i < least := by
    apply hexceeded levels _ hverdict
    intro j
    have hle := h.level_le j
    dsimp only at hle
    exact ⟨h.nonneg j, hle.trans htop⟩
  have honce := h.once
  rw [List.forall_mem_append, List.forall_mem_cons] at honce
  have hbefore := lag_le_length (i := i) honce.1
  have hafter := lag_le_length (i := i) honce.2.2
  have htotal := h.total i
  rw [lag_append, lag_cons, Phase.lag_arrived] at htotal
  push_cast at htotal ⊢
  omega

theorem Within.step (hgate : gate.Lawful stand verdict top)
    (hleast : LeastLimit verdict least top) (htop : max 0 (least + atMost - 1) ≤ top)
    (h : Within stand least atMost state) (hstep : Step gate atMost caller state next) :
    Within stand least atMost next := by
  obtain ⟨levels, hcounted⟩ := h.counted
  have hbelow := h.passed.trans htop
  have hnext := hcounted.step hgate hbelow hstep
  have hroom := h.inFlight
  have hpassed := h.passed
  cases hstep with
  | arrive hnew hundecided hfree => exact ⟨hnext, hfree, hpassed⟩
  | @accept shared shared' before after decisions hlook =>
      have hverdict := (hgate.look _ _ _ _ hcounted.stands hlook).1
      have hadmitted := hcounted.passed_of_accept hleast hbelow hverdict.symm
      refine ⟨hnext, ?_, ?_⟩
      · rw [List.length_append, List.length_cons] at hroom ⊢
        exact hroom
      · rw [List.length_append, List.length_cons] at hroom
        rw [admitted_append, Bool.toNat_true]
        push_cast at hadmitted ⊢
        omega
  | reject hlook =>
      refine ⟨hnext, ?_, ?_⟩
      · rw [List.length_append, List.length_cons] at hroom
        rw [List.length_append]
        omega
      · rw [admitted_append, Bool.toNat_false, Nat.add_zero]
        exact hpassed
  | count hremaining hcount =>
      refine ⟨hnext, ?_, hpassed⟩
      rw [List.length_append, List.length_cons] at hroom ⊢
      exact hroom
  | tend htend => exact ⟨hnext, hroom, hpassed⟩
  | leave =>
      refine ⟨hnext, ?_, hpassed⟩
      rw [List.length_append, List.length_cons] at hroom
      rw [List.length_append]
      omega

/-- The bound holds all along a run. -/
theorem within_of_reaches (hgate : gate.Lawful stand verdict top)
    (hleast : LeastLimit verdict least top) (htop : max 0 (least + atMost - 1) ≤ top)
    {shared : ω} (hstart : stand (fun _ => 0) shared)
    (hrun : Reaches gate atMost (start κ ι shared) state) : Within stand least atMost state := by
  induction hrun with
  | refl => exact ⟨⟨_, counted_start hstart⟩, Nat.zero_le _, le_max_left _ _⟩
  | tail _ hstep ih =>
      obtain ⟨caller, hstep⟩ := hstep
      exact ih.step hgate hleast htop hstep

/-! ## One call at a time -/

/-- The first calls are admitted, and the others are not. -/
def FirstAdmitted (limit : Nat) (decisions : List (κ × Bool)) : Prop :=
  decisions.map Prod.snd = (List.range decisions.length).map fun i => decide (i < limit)

theorem countP_range_lt (n limit : Nat) :
    (List.range n).countP (fun i => decide (i < limit)) = min n limit := by
  induction n with
  | zero => exact (Nat.zero_min limit).symm
  | succ n ih =>
      rw [List.range_succ, List.countP_append, ih, List.countP_singleton]
      by_cases hlt : n < limit
      · rw [if_pos (decide_eq_true hlt)]
        omega
      · rw [if_neg (by simpa using hlt)]
        omega

section FirstAdmitted

variable {limit : Nat} {decisions : List (κ × Bool)} {answer : Bool}

omit [DecidableEq ι] in
theorem FirstAdmitted.admitted_eq (h : FirstAdmitted limit decisions) :
    admitted decisions = min decisions.length limit := by
  have hcount : admitted decisions = (decisions.map Prod.snd).countP id := by
    rw [admitted, List.countP_map, Function.id_comp]
  rw [hcount, h, List.countP_map, Function.id_comp, countP_range_lt]

omit [DecidableEq ι] in
/-- One more call, decided by the calls that were admitted before it. -/
theorem FirstAdmitted.append (h : FirstAdmitted limit decisions)
    (hanswer : answer = decide (admitted decisions < limit)) :
    FirstAdmitted limit (decisions ++ [(caller, answer)]) := by
  have hlast : answer = decide (decisions.length < limit) := by
    rw [hanswer, h.admitted_eq, decide_eq_decide]
    omega
  rw [FirstAdmitted, List.map_append, h, List.length_append, List.length_singleton,
    List.range_succ, List.map_append, List.map_singleton, List.map_singleton, hlast]

end FirstAdmitted

/-- A call that is alone is decided by the calls that were admitted before it. -/
theorem Counted.verdict_alone {shared : ω} {decisions : List (κ × Bool)}
    (hleast : LeastLimit verdict least top)
    (h : Counted stand levels ⟨shared, [(caller, .arrived)], decisions⟩)
    (htop : (admitted decisions : Int) ≤ top) :
    verdict levels = decide (admitted decisions < least.toNat) := by
  have hlevel : ∀ i, levels i = admitted decisions := by
    intro i
    have htotal := h.total i
    rw [lag_cons, Phase.lag_arrived] at htotal
    simpa [lag] using htotal
  have hrange : ∀ i, 0 ≤ levels i ∧ levels i ≤ top := by
    intro i
    rw [hlevel i]
    exact ⟨Int.natCast_nonneg _, htop⟩
  rw [Bool.eq_iff_iff, decide_eq_true_eq]
  constructor
  · intro hverdict
    obtain ⟨i, hexceeded⟩ := hleast.exceeded
    have hbelow := hexceeded levels hrange hverdict
    rw [hlevel i] at hbelow
    omega
  · intro hbelow
    apply hleast.room levels hrange
    intro i
    rw [hlevel i]
    omega

theorem FirstAdmitted.step (hgate : gate.Lawful stand verdict top)
    (hleast : LeastLimit verdict least top) (htop : max 0 least ≤ top)
    (hwithin : Within stand least 1 state) (h : FirstAdmitted least.toNat state.decisions)
    (hstep : Step gate 1 caller state next) : FirstAdmitted least.toNat next.decisions := by
  obtain ⟨levels, hcounted⟩ := hwithin.counted
  have hroom := hwithin.inFlight
  have hpassed := hwithin.passed
  have halone : ∀ {shared shared' : ω} {before after : List (κ × Phase ι)}
      {decisions : List (κ × Bool)} {answer : Bool},
      state = ⟨shared, before ++ (caller, .arrived) :: after, decisions⟩ →
      gate.look shared answer shared' →
        FirstAdmitted least.toNat (decisions ++ [(caller, answer)]) := by
    intro shared shared' before after decisions answer hstate hlook
    subst hstate
    rw [List.length_append, List.length_cons] at hroom
    have hbefore : before = [] := List.length_eq_zero_iff.mp (by omega)
    have hafter : after = [] := List.length_eq_zero_iff.mp (by omega)
    subst hbefore hafter
    apply h.append
    rw [(hgate.look _ _ _ _ hcounted.stands hlook).1]
    apply hcounted.verdict_alone hleast
    dsimp only at hpassed
    omega
  cases hstep with
  | accept hlook => exact halone rfl hlook
  | reject hlook => exact halone rfl hlook
  | _ => exact h

/-- One call at a time, the first ones are admitted. -/
theorem firstAdmitted_of_reaches (hgate : gate.Lawful stand verdict top)
    (hleast : LeastLimit verdict least top) (htop : max 0 least ≤ top)
    {shared : ω} (hstart : stand (fun _ => 0) shared)
    (hrun : Reaches gate 1 (start κ ι shared) state) :
    FirstAdmitted least.toNat state.decisions := by
  have hone : max 0 (least + (1 : Nat) - 1) ≤ top := by
    omega
  induction hrun with
  | refl => rfl
  | tail hbefore hstep ih =>
      obtain ⟨caller, hstep⟩ := hstep
      exact ih.step hgate hleast htop
        (within_of_reaches hgate hleast hone hstart hbefore) hstep

/-! ## Calls that are rejected -/

/-- All that a call does which is rejected, at once or later, is to look. -/
theorem looks_of_rejected (hfiled : Filed state.inFlight state.decisions)
    (hstep : Step gate atMost caller state next) (hrun : Reaches gate atMost next last)
    (hrejected : (caller, false) ∈ last.decisions) :
    next.shared = state.shared ∨ gate.look state.shared false next.shared := by
  have hlast := (hfiled.step hstep).reaches hrun
  have hnot : (caller, true) ∉ next.decisions := by
    intro hadmitted
    exact hlast.not_mem_of_admitted (hrun.decisions_subset hadmitted) hrejected
  cases hstep with
  | arrive => exact .inl rfl
  | accept hlook => exact absurd (List.mem_append_right _ (List.mem_singleton_self _)) hnot
  | reject hlook => exact .inr hlook
  | count => exact absurd (hfiled.fits _ List.mem_append_cons_self) hnot
  | tend => exact absurd (hfiled.fits _ List.mem_append_cons_self) hnot
  | leave => exact absurd (hfiled.fits _ List.mem_append_cons_self) hnot

/-! ## A gate that is closed -/

/-- A verdict that finds no room on unused counters admits no call. -/
theorem rejected_of_reaches (hgate : gate.Lawful stand verdict top)
    (hclosed : verdict (fun _ => 0) = false) {shared : ω} (hstart : stand (fun _ => 0) shared)
    (hrun : Reaches gate atMost (start κ ι shared) state) :
    stand (fun _ => 0) state.shared ∧ ∀ decision ∈ state.decisions, decision.2 = false := by
  induction hrun with
  | refl => exact ⟨hstart, fun _ h => absurd h List.not_mem_nil⟩
  | tail hbefore hstep ih =>
      obtain ⟨caller, hstep⟩ := hstep
      obtain ⟨hstand, hrejected⟩ := ih
      have hfiled := filed_nil.reaches hbefore
      cases hstep with
      | accept hlook =>
          have hverdict := (hgate.look _ _ _ _ hstand hlook).1
          rw [hclosed] at hverdict
          cases hverdict
      | reject hlook =>
          refine ⟨(hgate.look _ _ _ _ hstand hlook).2, ?_⟩
          rw [List.forall_mem_append, List.forall_mem_singleton]
          exact ⟨hrejected, rfl⟩
      | count hremaining hcount =>
          have hadmitted := hfiled.fits _ List.mem_append_cons_self
          cases hrejected _ hadmitted
      | tend htend => exact ⟨hgate.tend _ _ _ hstand htend, hrejected⟩
      | _ => exact ⟨hstand, hrejected⟩

end Admission

end Otoroshi
