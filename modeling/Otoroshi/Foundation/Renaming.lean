/-
# Renamings, one after the other

The entries of a renaming are meant to be read at once: every new name gets what its old name
has at the start. Here they are taken one after the other, and each moves what is under its old
name by then, which may have come there along a chain of entries before it. A move may change
what it moves, and may fail.

`renames_iff_clear` says for which entries every order gives the renaming: no entry moves to a
name that another one, or itself, vacates, and what comes along a chain is what should come in
one move. What counts as the same under a name is told by a view of it.
-/

import Mathlib.Data.List.Nodup
import Mathlib.Logic.Function.Basic
import Otoroshi.Foundation.Stateful

namespace Otoroshi

namespace Renaming

variable {α β γ ε : Type}

/-- What is under the old name is moved to the new one. -/
def step [DecidableEq α] (missing : ε) (move : β → Except ε β) (found : α → Option β)
    (entry : α × α) : Except ε (α → Option β) :=
  match found entry.1 with
  | none => .error missing
  | some value => (move value).map fun moved =>
      Function.update (Function.update found entry.2 (some moved)) entry.1 none

def inTurn [DecidableEq α] (missing : ε) (move : β → Except ε β) (entries : List (α × α))
    (found : α → Option β) : Except ε (α → Option β) :=
  entries.foldlM (step missing move) found

/-- Every new name has what its old name had, and an old name that is no new one has nothing. -/
structure IsRenaming (view : α → Option β → γ) (entries : List (α × α)) (start : α → Option β)
    (result : α → γ) : Prop where
  target : ∀ entry ∈ entries, result entry.2 = view entry.2 (start entry.1)
  source : ∀ entry ∈ entries, (∀ other ∈ entries, other.2 ≠ entry.1) →
    result entry.1 = view entry.1 none
  other : ∀ name, (∀ entry ∈ entries, entry.1 ≠ name ∧ entry.2 ≠ name) →
    result name = view name (start name)

/-- There is one renaming. -/
theorem IsRenaming.unique {view : α → Option β → γ} {entries : List (α × α)}
    {start : α → Option β} {result other : α → γ} (h : IsRenaming view entries start result)
    (h' : IsRenaming view entries start other) : result = other := by
  funext name
  by_cases htarget : ∃ entry ∈ entries, entry.2 = name
  · obtain ⟨entry, hentry, rfl⟩ := htarget
    rw [h.target entry hentry, h'.target entry hentry]
  have hno : ∀ entry ∈ entries, entry.2 ≠ name := fun entry hentry hsame =>
    htarget ⟨entry, hentry, hsame⟩
  by_cases hsource : ∃ entry ∈ entries, entry.1 = name
  · obtain ⟨entry, hentry, rfl⟩ := hsource
    rw [h.source entry hentry hno, h'.source entry hentry hno]
  · have huntouched : ∀ entry ∈ entries, entry.1 ≠ name ∧ entry.2 ≠ name :=
      fun entry hentry => ⟨fun hsame => hsource ⟨entry, hentry, hsame⟩, hno entry hentry⟩
    rw [h.other name huntouched, h'.other name huntouched]

/-! ## Chains -/

/-- Each entry begins where the one before it ends. -/
def Links : α → List (α × α) → Prop
  | _, [] => True
  | name, entry :: chain => entry.1 = name ∧ Links entry.2 chain

/-- Where the chain ends. -/
def finish : α → List (α × α) → α
  | name, [] => name
  | _, entry :: chain => finish entry.2 chain

/-- As many moves as the chain has entries. -/
def carry (move : β → Except ε β) (chain : List (α × α)) (value : β) : Except ε β :=
  chain.foldlM (fun value _ => move value) value

section Chains

variable {move : β → Except ε β} {name : α} {chain rest : List (α × α)} {entry : α × α}
  {value : β}

theorem links_append : Links name (chain ++ rest) ↔
    Links name chain ∧ Links (finish name chain) rest := by
  induction chain generalizing name with
  | nil => exact (and_iff_right trivial).symm
  | cons entry chain ih => rw [List.cons_append, Links, Links, finish, ih, and_assoc]

theorem finish_append : finish name (chain ++ rest) = finish (finish name chain) rest := by
  induction chain generalizing name with
  | nil => rfl
  | cons entry chain ih => exact ih

theorem carry_append : carry move (chain ++ rest) value =
    carry move chain value >>= carry move rest :=
  List.foldlM_append

theorem carry_singleton : carry move [entry] value = move value := by
  rw [carry, List.foldlM_cons]
  cases move value with
  | error e => rfl
  | ok moved => rfl

theorem exists_mem_finish (origin : α) (h : chain ≠ []) :
    ∃ entry ∈ chain, entry.2 = finish origin chain := by
  induction chain generalizing origin with
  | nil => exact absurd rfl h
  | cons entry chain ih =>
      cases chain with
      | nil => exact ⟨entry, List.mem_cons_self, rfl⟩
      | cons next chain =>
          obtain ⟨last, hmem, hlast⟩ := ih entry.2 (List.cons_ne_nil next chain)
          exact ⟨last, List.mem_cons_of_mem entry hmem, hlast⟩

end Chains

/-! ## What a run does -/

section Runs

variable [DecidableEq α] {missing : ε} {move : β → Except ε β} {found start after : α → Option β}
  {entries first second : List (α × α)} {entry : α × α} {name : α} {value : β}

/-- What a step can do. -/
theorem step_eq_ok_iff : step missing move found entry = .ok after ↔
    ∃ value moved, found entry.1 = some value ∧ move value = .ok moved ∧
      after = Function.update (Function.update found entry.2 (some moved)) entry.1 none := by
  rw [step]
  cases found entry.1 with
  | none => simp
  | some value =>
      cases hmove : move value with
      | error e => simp [Except.map, hmove]
      | ok moved => simp [Except.map, hmove, eq_comm]

theorem inTurn_append_eq_ok_iff : inTurn missing move (first ++ second) found = .ok after ↔
    ∃ middle, inTurn missing move first found = .ok middle ∧
      inTurn missing move second middle = .ok after := by
  rw [inTurn, List.foldlM_append, ← inTurn]
  cases inTurn missing move first found with
  | error e => simp [error_bind]
  | ok middle => simp [ok_bind, inTurn]

theorem inTurn_cons_eq_ok_iff : inTurn missing move (entry :: entries) found = .ok after ↔
    ∃ middle, step missing move found entry = .ok middle ∧
      inTurn missing move entries middle = .ok after := by
  rw [inTurn, List.foldlM_cons]
  cases step missing move found entry with
  | error e => simp [error_bind]
  | ok middle => simp [ok_bind, inTurn]

/-- A name that no entry has keeps what is under it. -/
theorem inTurn_of_untouched (h : inTurn missing move entries found = .ok after)
    (huntouched : ∀ entry ∈ entries, entry.1 ≠ name ∧ entry.2 ≠ name) :
    after name = found name := by
  induction entries generalizing found with
  | nil =>
      cases h
      rfl
  | cons entry entries ih =>
      obtain ⟨middle, hstep, hrest⟩ := inTurn_cons_eq_ok_iff.mp h
      obtain ⟨value, moved, -, -, rfl⟩ := step_eq_ok_iff.mp hstep
      have hentry := huntouched entry List.mem_cons_self
      rw [ih hrest fun later hlater => huntouched later (List.mem_cons_of_mem entry hlater),
        Function.update_of_ne hentry.1.symm, Function.update_of_ne hentry.2.symm]

end Runs

/-! ## Where every order renames -/

/-- No entry moves to a name that an entry vacates, and along every chain comes what the last
name of the chain should have, as far as the view tells. -/
structure Clear (move : β → Except ε β) (view : α → Option β → γ) (entries : List (α × α))
    (start : α → Option β) : Prop where
  vacated : ∀ entry ∈ entries, ∀ other ∈ entries, entry.2 = other.1 →
    view entry.2 none = view entry.2 (start entry.1)
  carried : ∀ name chain value, chain ≠ [] → Links name chain → chain.Nodup → chain ⊆ entries →
    start name = some value → ∃ moved, carry move chain value = .ok moved ∧
      ∀ entry ∈ entries, entry.2 = finish name chain →
        view entry.2 (some moved) = view entry.2 (start entry.1)

/-- What is under a name has come there along a chain of entries that are done. -/
structure Came (move : β → Except ε β) (start : α → Option β) (done : List (α × α))
    (found : α → Option β) : Prop where
  isSome : ∀ name, (∀ entry ∈ done, entry.1 ≠ name) →
    ((start name).isSome = true ∨ ∃ entry ∈ done, entry.2 = name) → (found name).isSome = true
  chain : ∀ name value, found name = some value → ∃ origin chain first,
    Links origin chain ∧ chain.Nodup ∧ chain ⊆ done ∧ finish origin chain = name ∧
      start origin = some first ∧ carry move chain first = .ok value ∧
      (chain = [] → ∀ entry ∈ done, entry.1 ≠ name ∧ entry.2 ≠ name)

theorem came_start {move : β → Except ε β} {start : α → Option β} : Came move start [] start where
  isSome _ _ h := h.elim id fun ⟨_, hmem, _⟩ => absurd hmem List.not_mem_nil
  chain name value h := ⟨name, [], value, trivial, List.nodup_nil, List.nil_subset _, rfl, h, rfl,
    fun _ _ hmem => absurd hmem List.not_mem_nil⟩

section Clear

variable [DecidableEq α] (missing : ε) {move : β → Except ε β} {view : α → Option β → γ}
  {found start : α → Option β} {entries done rest : List (α × α)} {entry : α × α}

/-- One more entry is possible, and what it moves comes along a longer chain. -/
theorem Came.step (hcame : Came move start done found) (hclear : Clear move view entries start)
    (hdone : done ⊆ entries) (hentry : entry ∈ entries)
    (hsource : ∀ other ∈ done, other.1 ≠ entry.1) (hpresent : (start entry.1).isSome = true) :
    ∃ after, Renaming.step missing move found entry = .ok after ∧
      Came move start (done ++ [entry]) after := by
  obtain ⟨value, hvalue⟩ := Option.isSome_iff_exists.mp
    (hcame.isSome entry.1 hsource (.inl hpresent))
  obtain ⟨origin, chain, first, hlinks, hnodup, hsubset, hfinish, hfirst, hcarry, -⟩ :=
    hcame.chain entry.1 value hvalue
  have hnew : entry ∉ done := fun hmem => hsource entry hmem rfl
  have hlinks' : Links origin (chain ++ [entry]) :=
    links_append.mpr ⟨hlinks, hfinish.symm, trivial⟩
  have hnodup' : (chain ++ [entry]).Nodup := by
    rw [List.nodup_append_comm]
    exact List.nodup_cons.mpr ⟨fun hmem => hnew (hsubset hmem), hnodup⟩
  have hsubset' : chain ++ [entry] ⊆ done ++ [entry] :=
    List.append_subset.mpr ⟨List.subset_append_of_subset_left _ hsubset,
      List.subset_append_right done [entry]⟩
  have hentries : done ++ [entry] ⊆ entries :=
    List.append_subset.mpr ⟨hdone, List.cons_subset.mpr ⟨hentry, List.nil_subset entries⟩⟩
  obtain ⟨moved, hmoved, -⟩ := hclear.carried origin (chain ++ [entry]) first (by simp) hlinks'
    hnodup' (fun _ hmem => hentries (hsubset' hmem)) hfirst
  have hmove : move value = .ok moved := by
    rw [carry_append, hcarry, ok_bind, carry_singleton] at hmoved
    exact hmoved
  refine ⟨_, step_eq_ok_iff.mpr ⟨value, moved, hvalue, hmove, rfl⟩, ?_, ?_⟩
  · intro name hname hhas
    have hne : name ≠ entry.1 := (hname entry (by simp)).symm
    rw [Function.update_of_ne hne]
    by_cases htarget : name = entry.2
    · rw [htarget, Function.update_self]
      rfl
    · rw [Function.update_of_ne htarget]
      refine hcame.isSome name (fun other hmem => hname other (List.mem_append_left _ hmem)) ?_
      refine hhas.imp_right fun ⟨other, hmem, hother⟩ => ?_
      rcases List.mem_append.mp hmem with hmem | hmem
      · exact ⟨other, hmem, hother⟩
      · rw [List.mem_singleton.mp hmem] at hother
        exact absurd hother.symm htarget
  · intro name value' hname
    have hne : name ≠ entry.1 := by
      rintro rfl
      rw [Function.update_self] at hname
      cases hname
    rw [Function.update_of_ne hne] at hname
    by_cases htarget : name = entry.2
    · rw [htarget, Function.update_self, Option.some.injEq] at hname
      refine ⟨origin, chain ++ [entry], first, hlinks', hnodup', hsubset', ?_, hfirst,
        hname ▸ hmoved, fun hnil => absurd hnil (by simp)⟩
      rw [finish_append, htarget]
      rfl
    · rw [Function.update_of_ne htarget] at hname
      obtain ⟨origin, chain, first, hlinks, hnodup, hsubset, hfinish, hfirst, hcarry, huntouched⟩ :=
        hcame.chain name value' hname
      refine ⟨origin, chain, first, hlinks, hnodup, List.subset_append_of_subset_left _ hsubset,
        hfinish, hfirst, hcarry, fun hnil other hmem => ?_⟩
      rcases List.mem_append.mp hmem with hmem | hmem
      · exact huntouched hnil other hmem
      · rw [List.mem_singleton.mp hmem]
        exact ⟨hne.symm, fun h => htarget h.symm⟩

theorem Came.inTurn (hcame : Came move start done found) (hclear : Clear move view entries start)
    (hsubset : done ++ rest ⊆ entries) (hnodup : ((done ++ rest).map Prod.fst).Nodup)
    (hpresent : ∀ entry ∈ entries, (start entry.1).isSome = true) :
    ∃ after, Renaming.inTurn missing move rest found = .ok after ∧
      Came move start (done ++ rest) after := by
  induction rest generalizing done found with
  | nil => exact ⟨found, rfl, by rwa [List.append_nil]⟩
  | cons entry rest ih =>
      have hentry : entry ∈ entries := hsubset (by simp)
      have hsource : ∀ other ∈ done, other.1 ≠ entry.1 := by
        rw [List.map_append, List.nodup_append] at hnodup
        exact fun other hmem => hnodup.2.2 _ (List.mem_map_of_mem hmem) _ (by simp)
      obtain ⟨middle, hstep, hmiddle⟩ := hcame.step missing hclear
        (fun _ hmem => hsubset (List.mem_append_left _ hmem)) hentry hsource
        (hpresent entry hentry)
      have happend : done ++ entry :: rest = done ++ [entry] ++ rest := by simp
      rw [happend] at hsubset hnodup ⊢
      obtain ⟨after, hafter, hcame'⟩ := ih hmiddle hsubset hnodup
      exact ⟨after, inTurn_cons_eq_ok_iff.mpr ⟨middle, hstep, hafter⟩, hcame'⟩

/-- What came along chains is the renaming. -/
theorem Came.isRenaming (hcame : Came move start done found)
    (hrun : Renaming.inTurn missing move done start = .ok found)
    (hclear : Clear move view entries start) (hperm : done.Perm entries) :
    IsRenaming view entries start fun name => view name (found name) where
  target entry hentry := by
    show view entry.2 (found entry.2) = _
    cases hfound : found entry.2 with
    | none =>
        have hvacated : ∃ other ∈ done, other.1 = entry.2 := by
          by_contra hno
          have hsome := hcame.isSome entry.2 (fun other hmem hother => hno ⟨other, hmem, hother⟩)
            (.inr ⟨entry, hperm.mem_iff.mpr hentry, rfl⟩)
          rw [hfound] at hsome
          cases hsome
        obtain ⟨other, hmem, hother⟩ := hvacated
        exact hclear.vacated entry hentry other (hperm.subset hmem) hother.symm
    | some value =>
        obtain ⟨origin, chain, first, hlinks, hnodup, hsubset, hfinish, hfirst, hcarry,
          huntouched⟩ := hcame.chain entry.2 value hfound
        have hne : chain ≠ [] := fun hnil =>
          (huntouched hnil entry (hperm.mem_iff.mpr hentry)).2 rfl
        obtain ⟨moved, hmoved, hview⟩ := hclear.carried origin chain first hne hlinks hnodup
          (fun _ hmem => hperm.subset (hsubset hmem)) hfirst
        rw [hcarry, Except.ok.injEq] at hmoved
        rw [hmoved]
        exact hview entry hentry hfinish.symm
  source entry hentry hno := by
    show view entry.1 (found entry.1) = _
    cases hfound : found entry.1 with
    | none => rfl
    | some value =>
        obtain ⟨origin, chain, first, -, -, hsubset, hfinish, -, -, huntouched⟩ :=
          hcame.chain entry.1 value hfound
        have hne : chain ≠ [] := fun hnil =>
          (huntouched hnil entry (hperm.mem_iff.mpr hentry)).1 rfl
        obtain ⟨last, hmem, hlast⟩ := exists_mem_finish origin hne
        exact absurd (hlast.trans hfinish) (hno last (hperm.subset (hsubset hmem)))
  other name huntouched := congrArg (view name)
    (inTurn_of_untouched hrun fun entry hentry => huntouched entry (hperm.subset hentry))

end Clear

/-! ## What every order needs -/

section Orders

variable [DecidableEq α] {missing : ε} {move : β → Except ε β} {view : α → Option β → γ}
  {found start after : α → Option β} {entries chain : List (α × α)} {name : α} {value : β}

/-- A chain that is taken at once carries what is under its first name to its end, unless it ends
with an entry that moves nowhere. -/
theorem exists_carry_of_inTurn (hlinks : Links name chain) (hnodup : (chain.map Prod.fst).Nodup)
    (hvalue : found name = some value)
    (hrun : inTurn missing move chain found = .ok after) :
    ∃ moved, carry move chain value = .ok moved ∧
      (after (finish name chain) = some moved ∨
        ∃ front, chain = front ++ [(finish name chain, finish name chain)]) := by
  induction chain generalizing name found value with
  | nil =>
      cases hrun
      exact ⟨value, rfl, .inl hvalue⟩
  | cons entry chain ih =>
      obtain ⟨rfl, hlinks⟩ := hlinks
      rw [List.map_cons, List.nodup_cons] at hnodup
      obtain ⟨middle, hstep, hrest⟩ := inTurn_cons_eq_ok_iff.mp hrun
      obtain ⟨value', moved, hvalue', hmove, rfl⟩ := step_eq_ok_iff.mp hstep
      rw [hvalue, Option.some.injEq] at hvalue'
      subst hvalue'
      have hcarry : carry move (entry :: chain) value = carry move chain moved := by
        rw [carry, List.foldlM_cons, hmove, ok_bind, ← carry]
      rw [hcarry, finish]
      by_cases hsame : entry.2 = entry.1
      · cases chain with
        | nil =>
            refine ⟨moved, rfl, .inr ⟨[], ?_⟩⟩
            rw [finish, List.nil_append]
            exact congrArg (fun entry => [entry]) (Prod.ext hsame.symm rfl)
        | cons next chain =>
            exact absurd (hlinks.1.trans hsame) fun h => hnodup.1 (h ▸ by simp)
      · have hmoved : Function.update (Function.update found entry.2 (some moved)) entry.1 none
            entry.2 = some moved := by
          rw [Function.update_of_ne hsame, Function.update_self]
        obtain ⟨last, hlast, hend⟩ := ih hlinks hnodup.2 hmoved hrest
        refine ⟨last, hlast, hend.imp_right fun ⟨front, hfront⟩ => ⟨entry :: front, ?_⟩⟩
        rw [List.cons_append, ← hfront]

/-- Every order gives the renaming. -/
def Renames (missing : ε) (move : β → Except ε β) (view : α → Option β → γ)
    (entries : List (α × α)) (start : α → Option β) : Prop :=
  ∃ result, IsRenaming view entries start result ∧ ∀ order : List (α × α), order.Perm entries →
    (inTurn missing move order start).map (fun found name => view name (found name)) = .ok result

theorem Renames.of_perm (h : Renames missing move view entries start) {order : List (α × α)}
    (hperm : order.Perm entries) : ∃ after, inTurn missing move order start = .ok after ∧
      ∀ entry ∈ entries, view entry.2 (after entry.2) = view entry.2 (start entry.1) := by
  obtain ⟨result, hrenaming, horders⟩ := h
  have horder := horders order hperm
  cases hrun : inTurn missing move order start with
  | error e =>
      rw [hrun] at horder
      cases horder
  | ok after =>
      rw [hrun] at horder
      refine ⟨after, rfl, fun entry hentry => ?_⟩
      rw [← hrenaming.target entry hentry, ← Except.ok.inj horder]

/-- The entry that vacates a name may be the last one. -/
theorem Renames.vacated (h : Renames missing move view entries start) {entry other : α × α}
    (hentry : entry ∈ entries) (hother : other ∈ entries) (hsame : entry.2 = other.1) :
    view entry.2 none = view entry.2 (start entry.1) := by
  have hperm : (entries.erase other ++ [other]).Perm entries :=
    (List.perm_append_singleton other _).trans (List.perm_cons_erase hother).symm
  obtain ⟨after, hrun, htarget⟩ := h.of_perm hperm
  obtain ⟨middle, -, hlast⟩ := inTurn_append_eq_ok_iff.mp hrun
  obtain ⟨final, hstep, hfinal⟩ := inTurn_cons_eq_ok_iff.mp hlast
  obtain ⟨_, _, _, _, rfl⟩ := step_eq_ok_iff.mp hstep
  cases hfinal
  rw [← htarget entry hentry, hsame, Function.update_self]

/-- Some order takes the entries of a chain so that nothing comes in between: the entries that
move to its first name come behind its first entry, and the others before. -/
theorem exists_order_of_chain (hsources : (entries.map Prod.fst).Nodup) {first : α × α}
    {rest : List (α × α)} (hnodup : (first :: rest).Nodup) (hsubset : first :: rest ⊆ entries) :
    ∃ before between, (before ++ first :: (between ++ rest)).Perm entries ∧
      (∀ entry ∈ before, entry.1 ≠ first.1 ∧ entry.2 ≠ first.1) ∧
      ∀ entry ∈ between, entry ∉ first :: rest ∧ entry ∈ entries ∧ entry.2 = first.1 := by
  let others := entries.filter fun entry => !decide (entry ∈ first :: rest)
  let before := others.filter fun entry => !decide (entry.2 = first.1)
  let between := others.filter fun entry => decide (entry.2 = first.1)
  have hentries : entries.Nodup := hsources.of_map Prod.fst
  have hchain : (entries.filter fun entry => decide (entry ∈ first :: rest)).Perm
      (first :: rest) := by
    refine (List.perm_ext_iff_of_nodup (hentries.filter _) hnodup).mpr fun entry => ?_
    rw [List.mem_filter, decide_eq_true_eq]
    exact ⟨fun h => h.2, fun h => ⟨hsubset h, h⟩⟩
  have hothers : (before ++ between).Perm others :=
    List.perm_append_comm.trans (List.filter_append_perm _ others)
  have hperm : (before ++ first :: (between ++ rest)).Perm ((first :: rest) ++ others) := by
    have hmiddle : (first :: (between ++ rest)).Perm ((first :: rest) ++ between) :=
      (List.perm_append_comm.cons first)
    refine (hmiddle.append_left before).trans ?_
    rw [← List.append_assoc]
    refine (List.perm_append_comm.append_right between).trans ?_
    rw [List.append_assoc]
    exact hothers.append_left _
  refine ⟨before, between, hperm.trans ((hchain.symm.append_right others).trans
    (List.filter_append_perm _ entries)), fun entry hmem => ?_, fun entry hmem => ?_⟩
  · rw [List.mem_filter, List.mem_filter] at hmem
    refine ⟨fun hsame => ?_, by simpa using hmem.2⟩
    have hfirst : entry = first :=
      List.inj_on_of_nodup_map hsources hmem.1.1 (hsubset List.mem_cons_self) hsame
    rw [hfirst] at hmem
    simp at hmem
  · rw [List.mem_filter, List.mem_filter] at hmem
    exact ⟨by simpa using hmem.1.2, hmem.1.1, by simpa using hmem.2⟩

/-- What a chain carries is what it should be, unless its last name is vacated. -/
theorem Renames.exists_carry (h : Renames missing move view entries start)
    (hsources : (entries.map Prod.fst).Nodup) (hchain : chain ≠ []) (hlinks : Links name chain)
    (hnodup : chain.Nodup) (hsubset : chain ⊆ entries) (hvalue : start name = some value) :
    ∃ moved, carry move chain value = .ok moved ∧
      ((∀ entry ∈ entries, entry.2 = finish name chain →
          view entry.2 (some moved) = view entry.2 (start entry.1)) ∨
        (∃ front, chain = front ++ [(finish name chain, finish name chain)]) ∨
        ∃ other ∈ entries, other.1 = finish name chain ∧ ∃ entry, chain = [entry]) := by
  cases chain with
  | nil => exact absurd rfl hchain
  | cons first rest =>
      obtain ⟨rfl, hlinks'⟩ := hlinks
      have hfirsts : ((first :: rest).map Prod.fst).Nodup :=
        List.Nodup.map_on (fun _ hentry _ hother hsame =>
          List.inj_on_of_nodup_map hsources (hsubset hentry) (hsubset hother) hsame) hnodup
      obtain ⟨before, between, hperm, hbefore, hbetween⟩ :=
        exists_order_of_chain hsources hnodup hsubset
      obtain ⟨after, hrun, htarget⟩ := h.of_perm hperm
      obtain ⟨found, hfound, hrun⟩ := inTurn_append_eq_ok_iff.mp hrun
      obtain ⟨middle, hstep, hbehind⟩ := inTurn_cons_eq_ok_iff.mp hrun
      obtain ⟨later, hlater, hrest⟩ := inTurn_append_eq_ok_iff.mp hbehind
      obtain ⟨value', moved, hvalue', hmove, rfl⟩ := step_eq_ok_iff.mp hstep
      rw [inTurn_of_untouched hfound hbefore, hvalue, Option.some.injEq] at hvalue'
      subst hvalue'
      have hcarry : carry move (first :: rest) value = carry move rest moved := by
        rw [carry, List.foldlM_cons, hmove, ok_bind, ← carry]
      rw [hcarry, finish]
      by_cases hself : first.2 = first.1
      · cases rest with
        | nil =>
            refine ⟨moved, rfl, .inr (.inl ⟨[], ?_⟩)⟩
            rw [finish, List.nil_append]
            exact congrArg (fun entry => [entry]) (Prod.ext hself.symm rfl)
        | cons next rest =>
            rw [List.map_cons, List.nodup_cons] at hfirsts
            exact absurd (hlinks'.1.trans hself) fun hsame => hfirsts.1 (hsame ▸ by simp)
      by_cases hback : rest = [] ∧ ∃ other ∈ entries, other.1 = first.2
      · obtain ⟨rfl, other, hother, hsame⟩ := hback
        exact ⟨moved, rfl, .inr (.inr ⟨other, hother, hsame, first, rfl⟩)⟩
      have hbetween' : ∀ entry ∈ between, entry.1 ≠ first.2 ∧ entry.2 ≠ first.2 := by
        intro entry hmem
        obtain ⟨hnew, hentry, htarget⟩ := hbetween entry hmem
        refine ⟨fun hsame => ?_, fun hsame => hself (hsame.symm.trans htarget)⟩
        cases rest with
        | nil => exact hback ⟨rfl, entry, hentry, hsame⟩
        | cons next rest =>
            have hnext : entry = next := List.inj_on_of_nodup_map hsources hentry
              (hsubset (by simp)) (hsame.trans hlinks'.1.symm)
            exact hnew (by simp [hnext])
      have hmoved : later first.2 = some moved := by
        rw [inTurn_of_untouched hlater hbetween', Function.update_of_ne hself,
          Function.update_self]
      rw [List.map_cons, List.nodup_cons] at hfirsts
      obtain ⟨last, hlast, hend⟩ := exists_carry_of_inTurn hlinks' hfirsts.2 hmoved hrest
      refine ⟨last, hlast, ?_⟩
      rcases hend with hend | ⟨front, hfront⟩
      · refine .inl fun entry hentry hsame => ?_
        rw [← htarget entry hentry, hsame, hend]
      · exact .inr (.inl ⟨first :: front, by rw [List.cons_append, ← hfront]⟩)

/-- If every order gives the renaming, the entries are clear. What is as good as nothing under a
name stays so when it is moved. -/
theorem Renames.clear (h : Renames missing move view entries start)
    (hsources : (entries.map Prod.fst).Nodup)
    (hmove : ∀ name value moved, move value = .ok moved →
      view name none = view name (some value) → view name none = view name (some moved)) :
    Clear move view entries start where
  vacated entry hentry other hother hsame := h.vacated hentry hother hsame
  carried name chain value hchain hlinks hnodup hsubset hvalue := by
    induction hlength : chain.length generalizing chain with
    | zero => exact absurd (List.length_eq_zero_iff.mp hlength) hchain
    | succ length ih =>
        obtain ⟨moved, hcarry, hright | ⟨front, hfront⟩ | ⟨other, hother, hsame, entry, rfl⟩⟩ :=
          h.exists_carry hsources hchain hlinks hnodup hsubset hvalue
        · exact ⟨moved, hcarry, hright⟩
        · -- the last entry moves nowhere, so what has come to its name has to be as good as nothing
          obtain ⟨last, hlast⟩ : ∃ last, last = finish name chain := ⟨_, rfl⟩
          rw [← hlast] at hfront ⊢
          subst hfront
          have hself : (last, last) ∈ entries := hsubset (by simp)
          rw [links_append] at hlinks
          rw [carry_append] at hcarry
          refine ⟨moved, by rwa [carry_append], fun entry hentry hsame => ?_⟩
          have hnothing := h.vacated hentry hself hsame
          rw [hsame] at hnothing ⊢
          rw [← hnothing, eq_comm]
          cases front with
          | nil =>
              have hname : last = name := hlinks.2.1
              have hmoved : carry move [(last, last)] value = .ok moved := hcarry
              rw [carry_singleton] at hmoved
              refine hmove last value moved hmoved ?_
              rw [h.vacated hself hself rfl, hname, hvalue]
          | cons first front =>
              have hname : last = finish name (first :: front) := hlinks.2.1
              obtain ⟨before, hbefore, hview⟩ := ih (first :: front) (List.cons_ne_nil first front)
                hlinks.1 (List.nodup_append.mp hnodup).1
                (fun _ hmem => hsubset (List.mem_append_left _ hmem)) (by simpa using hlength)
              rw [hbefore, ok_bind, carry_singleton] at hcarry
              refine hmove last before moved hcarry ?_
              rw [hnothing, ← hsame, hview entry hentry (hsame.trans hname)]
        · -- the only entry moves to a name that is vacated
          refine ⟨moved, hcarry, fun entry' hentry' hsame' => ?_⟩
          obtain ⟨rfl, -⟩ := hlinks
          have hentry : entry ∈ entries := hsubset List.mem_cons_self
          have htarget : entry.2 = other.1 := hsame.symm
          have hnothing := h.vacated hentry' hother (hsame'.trans htarget)
          rw [← hnothing, hsame', eq_comm]
          rw [finish, finish] at *
          have hmoved := hcarry
          rw [carry_singleton] at hmoved
          refine hmove _ value moved hmoved ?_
          rw [← hvalue]
          exact h.vacated hentry hother htarget

theorem Clear.renames (h : Clear move view entries start)
    (hsources : (entries.map Prod.fst).Nodup)
    (hpresent : ∀ entry ∈ entries, (start entry.1).isSome = true) :
    Renames missing move view entries start := by
  have hrun : ∀ order : List (α × α), order.Perm entries → ∃ after,
      inTurn missing move order start = .ok after ∧
        IsRenaming view entries start fun name => view name (after name) := by
    intro order hperm
    obtain ⟨after, hafter, hcame⟩ := came_start.inTurn missing h
      (by simpa using hperm.subset) (by simpa using (hperm.map Prod.fst).nodup_iff.mpr hsources)
      hpresent
    exact ⟨after, hafter, hcame.isRenaming missing hafter h hperm⟩
  obtain ⟨after, -, hrenaming⟩ := hrun entries (List.Perm.refl entries)
  refine ⟨_, hrenaming, fun order hperm => ?_⟩
  obtain ⟨final, hfinal, hrenaming'⟩ := hrun order hperm
  rw [hfinal]
  exact congrArg Except.ok (hrenaming'.unique hrenaming)

/-- Every order gives the renaming exactly if the entries are clear. -/
theorem renames_iff_clear (hsources : (entries.map Prod.fst).Nodup)
    (hpresent : ∀ entry ∈ entries, (start entry.1).isSome = true)
    (hmove : ∀ name value moved, move value = .ok moved →
      view name none = view name (some value) → view name none = view name (some moved)) :
    Renames missing move view entries start ↔ Clear move view entries start :=
  ⟨fun h => h.clear hsources hmove, fun h => h.renames hsources hpresent⟩

end Orders

end Renaming

end Otoroshi
