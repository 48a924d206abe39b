/-
# Prefix trees

A node holds the values stored at its own path and a finite map from keys to
subtrees. The map is an association list kept in key order, so that two maps
with the same entries are the same list; nothing else depends on the order, and
every other statement reads the map through `get?`.

Inserting a list of (path, value) pairs gives the tree of these pairs. The
theory of such a tree is the theory of the list: going down one key is stripping
that key from the paths of the list (`child?_ofList`), so a descent in the tree
is an induction on the request that generalises over the list.
-/

import Mathlib.Data.List.Induction

namespace Otoroshi

/-- Values at a path, and subtrees by key. -/
inductive Trie (κ ρ : Type) where
  | node (values : List ρ) (children : List (κ × Trie κ ρ))

namespace KeyedList

variable {κ ν : Type} [DecidableEq κ]

/-- The keys of an association list. -/
def keys (entries : List (κ × ν)) : List κ := entries.map Prod.fst

/-- The value of a key. -/
def get? (k : κ) (entries : List (κ × ν)) : Option ν := entries.lookup k

@[simp]
theorem get?_nil (k : κ) : get? k ([] : List (κ × ν)) = none := rfl

theorem get?_cons (j k : κ) (v : ν) (entries : List (κ × ν)) :
    get? j ((k, v) :: entries) = if j = k then some v else get? j entries := by
  rw [get?, get?, List.lookup_cons]
  by_cases h : j = k
  · simp [h]
  · have hne : (j == k) = false := by simpa using h
    simp [h, hne]

theorem mem_keys_iff {k : κ} {entries : List (κ × ν)} :
    k ∈ keys entries ↔ ∃ v, get? k entries = some v := by
  rw [← Option.isSome_iff_exists, get?, List.lookup_isSome_iff, keys, List.mem_map]
  constructor
  · rintro ⟨entry, hmem, rfl⟩
    exact ⟨entry, hmem, beq_self_eq_true _⟩
  · rintro ⟨entry, hmem, hkey⟩
    exact ⟨entry, hmem, (eq_of_beq hkey).symm⟩

theorem mem_keys_of_get? {k : κ} {v : ν} {entries : List (κ × ν)}
    (h : get? k entries = some v) : k ∈ keys entries :=
  mem_keys_iff.mpr ⟨v, h⟩

theorem mem_of_get? {k : κ} {v : ν} {entries : List (κ × ν)}
    (h : get? k entries = some v) : (k, v) ∈ entries := by
  obtain ⟨before, after, rfl, -⟩ := List.lookup_eq_some_iff.mp h
  simp

private theorem get?_filter_ne {j k : κ} (hjk : j ≠ k) (entries : List (κ × ν)) :
    get? j (entries.filter (·.1 ≠ k)) = get? j entries := by
  induction entries with
  | nil => rfl
  | cons first entries ih =>
      obtain ⟨key, value⟩ := first
      by_cases hkey : key = k
      · subst hkey
        simp only [ne_eq, not_true_eq_false, decide_false, Bool.false_eq_true,
          not_false_eq_true, List.filter_cons_of_neg, get?_cons, hjk, ↓reduceIte, ih]
      · simp only [ne_eq, hkey, not_false_eq_true, decide_true, List.filter_cons_of_pos,
          get?_cons, ih]

variable [LT κ] [DecidableLT κ]

/-- Place a new entry before the first greater key. -/
def place (k : κ) (v : ν) : List (κ × ν) → List (κ × ν)
  | [] => [(k, v)]
  | entry :: entries =>
      if k < entry.1 then (k, v) :: entry :: entries else entry :: place k v entries

/-- Set the value of a key. -/
def put (k : κ) (v : ν) (entries : List (κ × ν)) : List (κ × ν) :=
  place k v (entries.filter (·.1 ≠ k))

/-- Both maps; the entries of the second one win. -/
def override (entries others : List (κ × ν)) : List (κ × ν) :=
  others.foldr (fun entry merged => put entry.1 entry.2 merged) entries

theorem mem_place {k : κ} {v : ν} {entries : List (κ × ν)} {entry : κ × ν} :
    entry ∈ place k v entries ↔ entry = (k, v) ∨ entry ∈ entries := by
  induction entries with
  | nil => simp [place]
  | cons first entries ih =>
      by_cases h : k < first.1
      · simp [place, h]
      · simp only [place, h, ↓reduceIte, List.mem_cons, ih]
        tauto

theorem mem_put {k : κ} {v : ν} {entries : List (κ × ν)} {entry : κ × ν}
    (h : entry ∈ put k v entries) : entry = (k, v) ∨ entry ∈ entries := by
  rcases mem_place.mp h with h | h
  · exact Or.inl h
  · exact Or.inr (List.mem_filter.mp h).1

theorem get?_place_self {k : κ} {v : ν} {entries : List (κ × ν)}
    (h : k ∉ keys entries) : get? k (place k v entries) = some v := by
  induction entries with
  | nil => simp [place, get?_cons]
  | cons first entries ih =>
      obtain ⟨key, value⟩ := first
      simp only [keys, List.map_cons, List.mem_cons, not_or] at h
      by_cases hlt : k < key
      · simp [place, hlt, get?_cons]
      · simp only [place, hlt, ↓reduceIte, get?_cons, h.1]
        exact ih h.2

theorem get?_place_ne {j k : κ} {v : ν} (hjk : j ≠ k) (entries : List (κ × ν)) :
    get? j (place k v entries) = get? j entries := by
  induction entries with
  | nil => simp [place, get?_cons, hjk]
  | cons first entries ih =>
      obtain ⟨key, value⟩ := first
      by_cases hlt : k < key
      · simp [place, hlt, get?_cons, hjk]
      · simp only [place, hlt, ↓reduceIte, get?_cons, ih]

theorem get?_put (j k : κ) (v : ν) (entries : List (κ × ν)) :
    get? j (put k v entries) = if j = k then some v else get? j entries := by
  by_cases hjk : j = k
  · subst hjk
    rw [if_pos rfl, put]
    apply get?_place_self
    simp [keys]
  · rw [if_neg hjk, put, get?_place_ne hjk, get?_filter_ne hjk]

theorem get?_override (j : κ) (entries others : List (κ × ν)) :
    get? j (override entries others) = (get? j others).or (get? j entries) := by
  induction others with
  | nil => simp [override]
  | cons first others ih =>
      obtain ⟨key, value⟩ := first
      rw [override] at ih ⊢
      rw [List.foldr_cons, get?_put, ih, get?_cons]
      by_cases hj : j = key
      · simp [hj]
      · simp [hj]

theorem mem_override {entries others : List (κ × ν)} {entry : κ × ν}
    (h : entry ∈ override entries others) : entry ∈ entries ∨ entry ∈ others := by
  induction others with
  | nil => exact Or.inl h
  | cons first others ih =>
      rw [override, List.foldr_cons] at h
      rcases mem_put h with rfl | h
      · simp
      · exact (ih h).imp id (List.mem_cons_of_mem _)

end KeyedList

namespace Trie

open KeyedList

variable {κ ρ : Type}

/-- The values stored at the node itself. -/
def values : Trie κ ρ → List ρ
  | node values _ => values

/-- The subtrees of the node, by key. -/
def children : Trie κ ρ → List (κ × Trie κ ρ)
  | node _ children => children

/-- No value and no subtree. -/
def empty : Trie κ ρ := node [] []

@[simp]
theorem values_node (vs : List ρ) (cs : List (κ × Trie κ ρ)) : (node vs cs).values = vs := rfl

@[simp]
theorem children_node (vs : List ρ) (cs : List (κ × Trie κ ρ)) :
    (node vs cs).children = cs := rfl

@[simp]
theorem node_values_children (t : Trie κ ρ) : node t.values t.children = t := by
  cases t
  rfl

section Equality

variable [DecidableEq κ] [DecidableEq ρ]

mutual

private def same : Trie κ ρ → Trie κ ρ → Bool
  | node vs cs, node vs' cs' => decide (vs = vs') && sameChildren cs cs'

private def sameChildren : List (κ × Trie κ ρ) → List (κ × Trie κ ρ) → Bool
  | [], [] => true
  | (k, t) :: cs, (k', t') :: cs' => decide (k = k') && same t t' && sameChildren cs cs'
  | _, _ => false

end

mutual

private theorem same_iff : ∀ t t' : Trie κ ρ, same t t' = true ↔ t = t'
  | node vs cs, node vs' cs' => by simp [same, sameChildren_iff cs cs']

private theorem sameChildren_iff :
    ∀ cs cs' : List (κ × Trie κ ρ), sameChildren cs cs' = true ↔ cs = cs'
  | [], [] => by simp [sameChildren]
  | [], _ :: _ => by simp [sameChildren]
  | _ :: _, [] => by simp [sameChildren]
  | (k, t) :: cs, (k', t') :: cs' => by
      simp [sameChildren, same_iff t t', sameChildren_iff cs cs', and_assoc]

end

instance : DecidableEq (Trie κ ρ) := fun t t' => decidable_of_iff _ (same_iff t t')

end Equality

variable [DecidableEq κ]

/-- The subtree under one key. -/
def child? (t : Trie κ ρ) (k : κ) : Option (Trie κ ρ) := get? k t.children

/-- The subtree under a path. -/
def subtree? : List κ → Trie κ ρ → Option (Trie κ ρ)
  | [], t => some t
  | k :: path, t => (t.child? k).bind (subtree? path)

/-- The values stored at a path. -/
def valuesAt (path : List κ) (t : Trie κ ρ) : List ρ :=
  ((subtree? path t).map values).getD []

@[simp]
theorem valuesAt_nil (t : Trie κ ρ) : valuesAt [] t = t.values := rfl

theorem valuesAt_cons (k : κ) (path : List κ) (t : Trie κ ρ) :
    valuesAt (k :: path) t = ((t.child? k).map (valuesAt path)).getD [] := by
  unfold valuesAt
  rw [subtree?]
  cases t.child? k <;> rfl

theorem valuesAt_of_child? {t sub : Trie κ ρ} {k : κ} (h : t.child? k = some sub)
    (path : List κ) : valuesAt (k :: path) t = valuesAt path sub := by
  rw [valuesAt_cons, h, Option.map_some, Option.getD_some]

theorem subtree?_of_child? {t sub : Trie κ ρ} {k : κ} (h : t.child? k = some sub)
    (path : List κ) : subtree? (k :: path) t = subtree? path sub := by
  rw [subtree?, h, Option.bind_some]

@[simp]
theorem child?_empty (k : κ) : (empty : Trie κ ρ).child? k = none := rfl

/-! ## The list behind a tree -/

/-- The values whose path is the empty one. -/
def here (entries : List (List κ × ρ)) : List ρ :=
  entries.filterMap fun entry =>
    match entry.1 with
    | [] => some entry.2
    | _ :: _ => none

/-- The entries below one key, that key removed from their path. -/
def strip (k : κ) (entries : List (List κ × ρ)) : List (List κ × ρ) :=
  entries.filterMap fun entry =>
    match entry.1 with
    | [] => none
    | first :: path => if first = k then some (path, entry.2) else none

theorem mem_strip {k : κ} {entries : List (List κ × ρ)} {path : List κ} {v : ρ} :
    (path, v) ∈ strip k entries ↔ (k :: path, v) ∈ entries := by
  rw [strip, List.mem_filterMap]
  constructor
  · rintro ⟨⟨whole, w⟩, hmem, hsome⟩
    cases whole with
    | nil => simp at hsome
    | cons first rest =>
        by_cases hfirst : first = k
        · simp only [hfirst, ↓reduceIte, Option.some.injEq, Prod.mk.injEq] at hsome
          rw [← hfirst, ← hsome.1, ← hsome.2] at *
          simpa [hfirst] using hmem
        · simp [hfirst] at hsome
  · intro hmem
    exact ⟨(k :: path, v), hmem, by simp⟩

omit [DecidableEq κ] in
theorem mem_here {entries : List (List κ × ρ)} {v : ρ} :
    v ∈ here entries ↔ ([], v) ∈ entries := by
  rw [here, List.mem_filterMap]
  constructor
  · rintro ⟨⟨path, w⟩, hmem, hsome⟩
    cases path with
    | nil =>
        simp only [Option.some.injEq] at hsome
        rwa [← hsome]
    | cons k path => simp at hsome
  · intro hmem
    exact ⟨([], v), hmem, rfl⟩

/-- The values the list has for one path, in order. -/
def listedAt (path : List κ) (entries : List (List κ × ρ)) : List ρ :=
  (entries.filter (·.1 = path)).map Prod.snd

theorem mem_listedAt {path : List κ} {entries : List (List κ × ρ)} {v : ρ} :
    v ∈ listedAt path entries ↔ (path, v) ∈ entries := by
  simp [listedAt]

theorem listedAt_nil (entries : List (List κ × ρ)) : listedAt [] entries = here entries := by
  induction entries with
  | nil => rfl
  | cons entry entries ih =>
      obtain ⟨path, v⟩ := entry
      rw [listedAt, here] at ih ⊢
      cases path with
      | nil => simpa using ih
      | cons k path => simpa using ih

theorem listedAt_cons (k : κ) (path : List κ) (entries : List (List κ × ρ)) :
    listedAt (k :: path) entries = listedAt path (strip k entries) := by
  induction entries with
  | nil => rfl
  | cons entry entries ih =>
      obtain ⟨whole, v⟩ := entry
      rw [listedAt, listedAt, strip] at ih ⊢
      cases whole with
      | nil => simpa using ih
      | cons first rest =>
          by_cases hfirst : first = k
          · by_cases hrest : rest = path
            · simpa [hfirst, hrest] using ih
            · simpa [hfirst, hrest] using ih
          · simpa [hfirst] using ih

/-! ## Building a tree -/

variable [LT κ] [DecidableLT κ]

/-- Store a value at a path, creating the nodes on the way. -/
def insert : List κ → ρ → Trie κ ρ → Trie κ ρ
  | [], v, t => node (t.values ++ [v]) t.children
  | k :: path, v, t =>
      node t.values (put k (insert path v ((t.child? k).getD empty)) t.children)

/-- The tree of a list of values with their paths. -/
def ofList (entries : List (List κ × ρ)) : Trie κ ρ :=
  entries.foldl (fun t entry => t.insert entry.1 entry.2) empty

@[simp]
theorem ofList_nil : ofList ([] : List (List κ × ρ)) = empty := rfl

theorem ofList_concat (entries : List (List κ × ρ)) (entry : List κ × ρ) :
    ofList (entries ++ [entry]) = (ofList entries).insert entry.1 entry.2 := by
  rw [ofList, List.foldl_append]
  rfl

theorem values_insert (path : List κ) (v : ρ) (t : Trie κ ρ) :
    (insert path v t).values = t.values ++ if path = [] then [v] else [] := by
  cases path with
  | nil => simp [insert]
  | cons k path => simp [insert]

theorem child?_insert (j : κ) (path : List κ) (v : ρ) (t : Trie κ ρ) :
    (insert path v t).child? j =
      match path with
      | [] => t.child? j
      | k :: rest => if j = k then some (insert rest v ((t.child? k).getD empty))
          else t.child? j := by
  cases path with
  | nil => rfl
  | cons k rest => exact get?_put j k _ t.children

/-- The values of the root are those stored at the empty path, in order. -/
theorem values_ofList (entries : List (List κ × ρ)) :
    (ofList entries).values = here entries := by
  induction entries using List.reverseRec with
  | nil => rfl
  | append_singleton entries entry ih =>
      obtain ⟨path, v⟩ := entry
      rw [ofList_concat, values_insert, ih, here, here, List.filterMap_append]
      cases path <;> simp

/-- Going down one key of the tree of a list is stripping that key from the
list. A key is present exactly when some path starts with it. -/
theorem child?_ofList (k : κ) (entries : List (List κ × ρ)) :
    (ofList entries).child? k =
      if strip k entries = [] then none else some (ofList (strip k entries)) := by
  induction entries using List.reverseRec with
  | nil => rfl
  | append_singleton entries entry ih =>
      obtain ⟨path, v⟩ := entry
      rw [ofList_concat, child?_insert]
      have hstrip : strip k (entries ++ [(path, v)]) = strip k entries ++ strip k [(path, v)] :=
        List.filterMap_append
      cases path with
      | nil =>
          have hnone : strip k [(([] : List κ), v)] = [] := rfl
          rw [hstrip, hnone, List.append_nil]
          exact ih
      | cons first rest =>
          by_cases hfirst : k = first
          · subst hfirst
            have hchild : ((ofList entries).child? k).getD empty = ofList (strip k entries) := by
              rw [ih]
              split
              · rename_i hnil
                rw [hnil]
                rfl
              · rfl
            have hone : strip k [(k :: rest, v)] = [(rest, v)] := by simp [strip]
            simp only [↓reduceIte, hstrip, hone, List.append_eq_nil_iff, List.cons_ne_self,
              and_false, hchild, ofList_concat]
          · have hone : strip k [(first :: rest, v)] = [] := by simp [strip, Ne.symm hfirst]
            simp only [hfirst, ↓reduceIte, hstrip, hone, List.append_nil]
            exact ih

/-- The values stored at a path are those the list has for it, in order. -/
theorem valuesAt_ofList (path : List κ) (entries : List (List κ × ρ)) :
    valuesAt path (ofList entries) = listedAt path entries := by
  induction path generalizing entries with
  | nil => rw [valuesAt_nil, values_ofList, listedAt_nil]
  | cons k path ih =>
      rw [valuesAt_cons, child?_ofList, listedAt_cons, ← ih]
      split
      · rename_i hnil
        rw [hnil, ih]
        rfl
      · rfl

/-- A node below the root is there for some path of the list that goes on. -/
theorem exists_mem_of_subtree?_ofList {k : κ} {path : List κ} {entries : List (List κ × ρ)}
    {sub : Trie κ ρ} (h : subtree? (k :: path) (ofList entries) = some sub) :
    ∃ entry ∈ entries, k :: path <+: entry.1 := by
  induction path generalizing k entries with
  | nil =>
      rw [subtree?, child?_ofList] at h
      by_cases hnil : strip k entries = []
      · simp [hnil] at h
      · obtain ⟨⟨rest, v⟩, hmem⟩ := List.exists_mem_of_ne_nil _ hnil
        exact ⟨(k :: rest, v), mem_strip.mp hmem, List.cons_prefix_cons.mpr ⟨rfl, List.nil_prefix⟩⟩
  | cons next path ih =>
      rw [subtree?, child?_ofList] at h
      by_cases hnil : strip k entries = []
      · simp [hnil] at h
      · rw [if_neg hnil, Option.bind_some] at h
        obtain ⟨⟨rest, v⟩, hmem, hstarts⟩ := ih h
        exact ⟨(k :: rest, v), mem_strip.mp hmem, List.cons_prefix_cons.mpr ⟨rfl, hstarts⟩⟩

/-! ## Keys at every depth -/

/-- Every key of the tree, at any depth, satisfies a predicate. -/
inductive KeysIn (holds : κ → Prop) : Trie κ ρ → Prop
  | node {values : List ρ} {children : List (κ × Trie κ ρ)}
      (keys : ∀ entry ∈ children, holds entry.1)
      (below : ∀ entry ∈ children, KeysIn holds entry.2) :
      KeysIn holds (node values children)

omit [DecidableEq κ] [LT κ] [DecidableLT κ] in
theorem KeysIn.entry {holds : κ → Prop} {t : Trie κ ρ} (h : KeysIn holds t)
    {entry : κ × Trie κ ρ} (hentry : entry ∈ t.children) :
    holds entry.1 ∧ KeysIn holds entry.2 := by
  cases h with
  | node keys below => exact ⟨keys entry hentry, below entry hentry⟩

omit [LT κ] [DecidableLT κ] in
theorem KeysIn.child {holds : κ → Prop} {t sub : Trie κ ρ} {k : κ} (h : KeysIn holds t)
    (hchild : t.child? k = some sub) : KeysIn holds sub :=
  (h.entry (mem_of_get? hchild)).2

omit [DecidableEq κ] [LT κ] [DecidableLT κ] in
theorem KeysIn.of_mem_keys {holds : κ → Prop} {t : Trie κ ρ} {k : κ} (h : KeysIn holds t)
    (hk : k ∈ keys t.children) : holds k := by
  obtain ⟨entry, hentry, rfl⟩ := List.mem_map.mp hk
  exact (h.entry hentry).1

omit [DecidableEq κ] [LT κ] [DecidableLT κ] in
theorem keysIn_empty {holds : κ → Prop} : KeysIn holds (empty : Trie κ ρ) :=
  KeysIn.node (by simp) (by simp)

theorem KeysIn.insert {holds : κ → Prop} {t : Trie κ ρ} (h : KeysIn holds t)
    {path : List κ} (hpath : ∀ k ∈ path, holds k) (v : ρ) : KeysIn holds (t.insert path v) := by
  induction path generalizing t with
  | nil => exact KeysIn.node (fun entry he => (h.entry he).1) fun entry he => (h.entry he).2
  | cons k path ih =>
      have hsub : KeysIn holds (Trie.insert path v ((t.child? k).getD empty)) := by
        refine ih ?_ fun j hj => hpath j (List.mem_cons_of_mem _ hj)
        cases hchild : t.child? k with
        | none => exact keysIn_empty
        | some sub => exact h.child hchild
      have hentries : ∀ entry ∈ (t.insert (k :: path) v).children,
          holds entry.1 ∧ KeysIn holds entry.2 := by
        intro entry hentry
        rcases mem_put hentry with rfl | hold
        · exact ⟨hpath k List.mem_cons_self, hsub⟩
        · exact h.entry hold
      exact KeysIn.node (fun entry he => (hentries entry he).1)
        fun entry he => (hentries entry he).2

theorem keysIn_ofList {holds : κ → Prop} {entries : List (List κ × ρ)}
    (h : ∀ entry ∈ entries, ∀ k ∈ entry.1, holds k) : KeysIn holds (ofList entries) := by
  induction entries using List.reverseRec with
  | nil => exact keysIn_empty
  | append_singleton entries entry ih =>
      rw [ofList_concat]
      refine KeysIn.insert (ih fun other hother => h other ?_) (h entry ?_) entry.2
      · exact List.mem_append_left _ hother
      · simp

end Trie

end Otoroshi
