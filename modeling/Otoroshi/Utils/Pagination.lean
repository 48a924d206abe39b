/-
# Pages of a list

Three functions of the admin api answer a page of a list: `findAllEntities` for the entities of
a kind, `fetchWithPaginationAndFiltering` for the lists of some controllers, and
`EntityFiltering.process` for anything else. Each reads the number of the page and its size from
the request, where no size means everything, and cuts a slice out of what the filters and the
sort of the request leave.

Only one of them computes the bounds of the slice in 64 bits. `partitions_iff` says for which
lists and sizes the pages of each function, one after the other, are the list.
-/

import Otoroshi.Foundation.Json
import Otoroshi.Foundation.Long
import Otoroshi.Foundation.Slices

namespace Otoroshi

namespace Pagination

open Slices

/-! ## The functions -/

def maxInt : Nat := 2147483647

/-- `toIntOption`. -/
def toIntOption (digit : Char → Option Nat) (text : Str) : Option Int32 :=
  ((parseLong digit text).filter fun n => -2 ^ 31 ≤ n ∧ n < 2 ^ 31).map Int32.ofInt

/-- The query of a list request: the first values of the two parameters about pages, and
everything else. -/
structure ListRequest (Q : Type) where
  page : Option Str
  pageSize : Option Str
  others : Q

/-- What a list does with a request apart from its pages: who may read an entity, how it is
written, what the filters keep, how the rest is sorted, and the fields that are shown. -/
structure ListOps (Q Entity : Type) where
  canUserRead : Entity → Bool
  writeEntity : Entity → JsValue
  keeps : Q → JsValue → Bool
  sortFinalItems : Q → List JsValue → List JsValue
  filterJson : Q → JsValue → JsValue
  perm_sortFinalItems : ∀ q items, (sortFinalItems q items).Perm items

/-- A page, with the headers that go with it. -/
structure Listed where
  items : List JsValue
  count : Nat
  offset : Int32
  page : Int32
  pageSize : Int32

/-- `slice`, where a negative bound is the start. -/
def slice {α : Type} (start stop : Int32) (items : List α) : List α :=
  between start.toInt.toNat stop.toInt.toNat items

variable {Q Entity ε : Type}

namespace ListRequest

variable (digit : Char → Option Nat) (request : ListRequest Q)

/-- The first page, where the request names none. -/
def paginationPage : Int32 := (request.page.bind (toIntOption digit)).getD 1

/-- Everything, where the request names no size. -/
def paginationPageSize : Int32 := (request.pageSize.bind (toIntOption digit)).getD Int32.maxValue

end ListRequest

/-- `findAllEntities`. -/
def findAllEntities (digit : Char → Option Nat) (ops : ListOps Q Entity) (request : ListRequest Q)
    (findAllOps : Except ε (List Entity)) : Except ε Listed := do
  let page := request.paginationPage digit
  let pageSize := request.paginationPageSize digit
  let position := (page - 1) * pageSize
  let entities ← findAllOps
  let jsonElements := (entities.filter ops.canUserRead).map ops.writeEntity
  let filteredItems :=
    ops.sortFinalItems request.others (jsonElements.filter (ops.keeps request.others))
  let finalItems := filteredItems.map (ops.filterJson request.others)
  pure ⟨slice position (position + pageSize) finalItems, entities.length, position, page, pageSize⟩

/-- `fetchWithPaginationAndFiltering`, with the bounds in a `Long` and at most the largest
`Int`. -/
def fetchWithPaginationAndFiltering (digit : Char → Option Nat) (ops : ListOps Q Entity)
    (request : ListRequest Q) (findAllOps : Except ε (List Entity)) : Except ε (List Entity) := do
  let page := request.paginationPage digit
  let pageSize := request.paginationPageSize digit
  let position := Int32.ofInt
    (min (wrapLong (max (page - 1).toInt 0 * pageSize.toInt)) maxInt)
  let stop := Int32.ofInt (min (wrapLong (position.toInt + pageSize.toInt)) maxInt)
  let entities ← findAllOps
  let found := entities.filter fun entity => ops.keeps request.others (ops.writeEntity entity)
  pure (slice position stop found)

/-- `toInt`, with the text that is no number. -/
def toInt (digit : Char → Option Nat) (parameter : Option Str) (default : Int32) :
    Except Str Int32 :=
  match parameter with
  | none => pure default
  | some text =>
      match toIntOption digit text with
      | some n => pure n
      | none => .error text

/-- `paginateEntity`, on the elements of an array. -/
def paginateEntity (digit : Char → Option Nat) (request : ListRequest Q) (items : List JsValue) :
    Except Str (List JsValue) := do
  let page ← toInt digit request.page 1
  let pageSize ← toInt digit request.pageSize Int32.maxValue
  let position := (page - 1) * pageSize
  pure (slice position (position + pageSize) items)

/-- `EntityFiltering.process`. What is no array has no pages. -/
def process (digit : Char → Option Nat) (ops : ListOps Q Entity) (request : ListRequest Q) :
    JsValue → Except Str JsValue
  | .array items => do
      let sorted := ops.sortFinalItems request.others (items.filter (ops.keeps request.others))
      let content ← paginateEntity digit request sorted
      pure (.array (content.map (ops.filterJson request.others)))
  | entity => pure (ops.filterJson request.others entity)

/-! ## Partitions -/

section Partition

variable {α : Type}

/-- The pages 1, 2, 3 and so on, one after the other, are the list, and a page past the last one
is empty. -/
structure IsPartition (size : Nat) (pages : Nat → List α) (items : List α) : Prop where
  concatenated : ((List.range maxInt).flatMap fun n => pages (n + 1)) = items
  past : ∀ number, 1 ≤ number → number ≤ maxInt → items.length ≤ (number - 1) * size →
    pages number = []

/-- Every page is answered, and together they are the list. -/
def Partitions (size : Nat) (answer : Nat → Except ε (List α)) (items : List α) : Prop :=
  ∃ pages, (∀ number, 1 ≤ number → number ≤ maxInt → answer number = .ok (pages number)) ∧
    IsPartition size pages items

variable {size : Nat} {items : List α} {pages pages' : Nat → List α}

theorem IsPartition.congr (h : IsPartition size pages items)
    (hsame : ∀ number, 1 ≤ number → number ≤ maxInt → pages number = pages' number) :
    IsPartition size pages' items := by
  refine ⟨?_, fun number hfirst hlast hpast => ?_⟩
  · rw [← h.concatenated]
    refine List.flatMap_congr fun n hn => (hsame (n + 1) ?_ ?_).symm
    · exact Nat.succ_le_succ (Nat.zero_le n)
    · exact List.mem_range.mp hn
  · rw [← hsame number hfirst hlast]
    exact h.past number hfirst hlast hpast

theorem partitions_iff_of_answers {answer : Nat → Except ε (List α)}
    (h : ∀ number, 1 ≤ number → number ≤ maxInt → answer number = .ok (pages number)) :
    Partitions size answer items ↔ IsPartition size pages items := by
  refine ⟨fun hpartitions => ?_, fun hpartition => ⟨pages, h, hpartition⟩⟩
  obtain ⟨pages', hpages', hpartition⟩ := hpartitions
  refine hpartition.congr fun number hfirst hlast => ?_
  exact Except.ok.inj ((hpages' number hfirst hlast).symm.trans (h number hfirst hlast))

/-- Pages of the size that is asked for are a partition of a list that ends before the last of
them does. -/
theorem isPartition_of_between (hsize : 1 ≤ size) (hlength : items.length ≤ maxInt)
    (h : ∀ n, n < maxInt → pages (n + 1) = between (n * size) ((n + 1) * size) items) :
    IsPartition size pages items := by
  refine ⟨?_, fun number hfirst hlast hpast => ?_⟩
  · rw [List.flatMap_congr fun n hn => h n (List.mem_range.mp hn), flatMap_between]
    exact List.take_of_length_le (hlength.trans (Nat.le_mul_of_pos_right _ hsize))
  · obtain ⟨n, rfl⟩ := Nat.exists_eq_succ_of_ne_zero (Nat.ne_of_gt hfirst)
    rw [h n hlast]
    exact between_of_length_le hpast _

end Partition

/-! ## The bounds of a page -/

section Bounds

variable {α : Type} {pageSize : Int32} {size n : Nat} {items : List α}

/-- A page cut out with bounds in 32 bits. -/
def intPage (pageSize : Int32) (items : List α) (number : Nat) : List α :=
  slice ((Int32.ofInt number - 1) * pageSize) ((Int32.ofInt number - 1) * pageSize + pageSize) items

/-- A page cut out with bounds in 64 bits. -/
def longPage (pageSize : Int32) (items : List α) (number : Nat) : List α :=
  let position := Int32.ofInt
    (min (wrapLong (max (Int32.ofInt number - 1).toInt 0 * pageSize.toInt)) maxInt)
  slice position (Int32.ofInt (min (wrapLong (position.toInt + pageSize.toInt)) maxInt)) items

/-- A number of 32 bits differs by a multiple of their range. -/
theorem exists_bmod_eq (x : Int) : ∃ k, x.bmod (2 ^ 32) = x + k * 2 ^ 32 ∧
    -2 ^ 31 ≤ x.bmod (2 ^ 32) ∧ x.bmod (2 ^ 32) < 2 ^ 31 := by
  have hparts := Int.bmod_add_bdiv' x (2 ^ 32)
  have hlow := Int.le_bmod (x := x) (m := 2 ^ 32) (by decide)
  have hhigh := Int.bmod_lt (x := x) (m := 2 ^ 32) (by decide)
  use -x.bdiv (2 ^ 32)
  omega

theorem toInt_pred (hn : n < maxInt) : (Int32.ofInt (n + 1 : Nat) - 1).toInt = n := by
  rw [maxInt] at hn
  have hpred : ((n + 1 : Nat) : Int) - 1 = n := by omega
  rw [Int32.toInt_sub, Int32.toInt_ofInt_of_le (by omega) (by omega), Int32.toInt_one, hpred]
  exact Int.bmod_eq_of_le (by omega) (by omega)

theorem intPage_eq (hsize : pageSize.toInt = size) (hn : n < maxInt) :
    intPage pageSize items (n + 1) =
      between ((n * size : Int).bmod (2 ^ 32)).toNat
        (((n * size : Int).bmod (2 ^ 32) + size).bmod (2 ^ 32)).toNat items := by
  rw [intPage, slice, Int32.toInt_add, Int32.toInt_mul, toInt_pred hn, hsize]

/-- Bounds that fit are those of the page. -/
theorem intPage_of_le (hsize : pageSize.toInt = size) (hn : n < maxInt)
    (hstop : n * size + size ≤ maxInt) :
    intPage pageSize items (n + 1) = between (n * size) ((n + 1) * size) items := by
  rw [maxInt] at hstop
  have hposition : (n * size : Int).bmod (2 ^ 32) = n * size :=
    Int.bmod_eq_of_le (by omega) (by omega)
  have hend : (n * size + size : Int).bmod (2 ^ 32) = n * size + size :=
    Int.bmod_eq_of_le (by omega) (by omega)
  rw [intPage_eq hsize hn, hposition, hend, Nat.succ_mul]
  congr 1

/-- Nothing is before a bound that is not positive. -/
theorem intPage_of_stop_le (hsize : pageSize.toInt = size) (hn : n < maxInt)
    (hstop : ((n * size : Int).bmod (2 ^ 32) + size).bmod (2 ^ 32) ≤ 0) :
    intPage pageSize items (n + 1) = [] := by
  rw [intPage_eq hsize hn, Int.toNat_of_nonpos hstop]
  exact between_of_le (Nat.zero_le _) items

/-- Pages of two elements: all bounds that do not fit are negative. -/
theorem intPage_two (hsize : pageSize.toInt = (2 : Nat)) (hn : n < maxInt)
    (hstart : maxInt < n * 2 + 2) : intPage pageSize items (n + 1) = [] := by
  rw [maxInt] at hn hstart
  obtain ⟨k, hk, hlow, hhigh⟩ := exists_bmod_eq (n * (2 : Nat))
  obtain ⟨l, hl, hlow', hhigh'⟩ := exists_bmod_eq ((n * (2 : Nat) : Int).bmod (2 ^ 32) + (2 : Nat))
  refine intPage_of_stop_le hsize hn ?_
  omega

/-- For larger pages the position of some page past the last one starts over. -/
theorem exists_intPage_ne_nil (hsize : pageSize.toInt = size) (hlarge : 3 ≤ size)
    (hitems : items ≠ []) (hlength : items.length ≤ maxInt) :
    ∃ n < maxInt, items.length ≤ n * size ∧ intPage pageSize items (n + 1) ≠ [] := by
  have hlast := pageSize.toInt_lt
  have hpos := List.length_pos_of_ne_nil hitems
  rw [maxInt] at hlength
  obtain ⟨q, hq⟩ : ∃ q, q = (2 ^ 32 - 1) / size := ⟨_, rfl⟩
  have hdiv : q * size + (2 ^ 32 - 1) % size = 2 ^ 32 - 1 := by
    rw [hq, Nat.mul_comm]
    exact Nat.div_add_mod _ _
  have hmod : (2 ^ 32 - 1) % size < size := Nat.mod_lt _ (by omega)
  have hbound : q ≤ (2 ^ 32 - 1) / 3 := hq ▸ Nat.div_le_div_left hlarge (by decide)
  by_cases hexact : q * size + size = 2 ^ 32
  · -- the next page starts at the first element again
    refine ⟨q + 1, by rw [maxInt]; omega, by rw [Nat.succ_mul]; omega, ?_⟩
    have hposition : ((q + 1 : Nat) * size : Int).bmod (2 ^ 32) = 0 := by
      have hproduct : ((q + 1 : Nat) * size : Int) = 2 ^ 32 := by
        rw [← Int.natCast_mul, Nat.succ_mul, hexact]
        rfl
      rw [hproduct]
      rfl
    have hstop : (0 + size : Int).bmod (2 ^ 32) = size := by
      rw [Int.zero_add]
      exact Int.bmod_eq_of_le (by omega) (by omega)
    rw [intPage_eq hsize (by rw [maxInt]; omega), hposition, hstop, Ne, between_eq_nil_iff]
    omega
  · -- this page starts before the first element
    refine ⟨q, by rw [maxInt]; omega, by omega, ?_⟩
    have hposition : (q * size : Int).bmod (2 ^ 32) = q * size - 2 ^ 32 := by
      obtain ⟨k, hk, hlow, hhigh⟩ := exists_bmod_eq (q * size)
      omega
    have hstop : (q * size - 2 ^ 32 + size : Int).bmod (2 ^ 32) = q * size - 2 ^ 32 + size :=
      Int.bmod_eq_of_le (by omega) (by omega)
    have hzero : (q * size - 2 ^ 32 : Int).toNat = 0 := Int.toNat_of_nonpos (by omega)
    have hone : 0 < (q * size - 2 ^ 32 + size : Int).toNat := by omega
    rw [intPage_eq hsize (by rw [maxInt]; omega), hposition, hstop, hzero, Ne, between_eq_nil_iff,
      Nat.le_zero]
    exact Nat.ne_of_gt (Nat.lt_min.mpr ⟨hone, hpos⟩)

/-- The pages of a list are right in 32 bits. -/
def Fits (size length : Nat) : Prop := length = 0 ∨ size = 1 ∨ size = 2 ∧ length < maxInt

theorem intPage_of_fits (hsize : pageSize.toInt = size) (hfits : Fits size items.length)
    (hn : n < maxInt) :
    intPage pageSize items (n + 1) = between (n * size) ((n + 1) * size) items := by
  rcases hfits with hnil | rfl | ⟨rfl, hlength⟩
  · rw [List.eq_nil_of_length_eq_zero hnil, intPage_eq hsize hn, between_of_length_le (by simp),
      between_of_length_le (by simp)]
  · exact intPage_of_le hsize hn (by omega)
  · by_cases hstop : n * 2 + 2 ≤ maxInt
    · exact intPage_of_le hsize hn hstop
    · rw [intPage_two hsize hn (by omega), between_of_length_le]
      rw [maxInt] at hlength hstop
      omega

/-- The last element of the longest list is on no page of two. -/
theorem flatMap_intPage_two (hsize : pageSize.toInt = (2 : Nat)) :
    ((List.range maxInt).flatMap fun n => intPage pageSize items (n + 1)) =
      items.take (maxInt - 1) := by
  have hhalf : maxInt = (maxInt - 1) / 2 + ((maxInt - 1) / 2 + 1) := rfl
  have hfirst : ∀ n ∈ List.range ((maxInt - 1) / 2),
      intPage pageSize items (n + 1) = between (n * 2) ((n + 1) * 2) items := by
    intro n hn
    have hlt := List.mem_range.mp hn
    rw [maxInt] at hlt
    exact intPage_of_le hsize (by rw [maxInt]; omega) (by rw [maxInt]; omega)
  have hrest : ∀ n ∈ (List.range ((maxInt - 1) / 2 + 1)).map ((maxInt - 1) / 2 + ·),
      intPage pageSize items (n + 1) = [] := by
    intro n hn
    obtain ⟨m, hm, rfl⟩ := List.mem_map.mp hn
    have hlt := List.mem_range.mp hm
    rw [maxInt] at hlt ⊢
    exact intPage_two hsize (by rw [maxInt]; omega) (by rw [maxInt]; omega)
  calc ((List.range maxInt).flatMap fun n => intPage pageSize items (n + 1))
      = (List.range ((maxInt - 1) / 2)).flatMap (fun n => intPage pageSize items (n + 1)) := by
        rw [hhalf, List.range_add, List.flatMap_append, List.flatMap_eq_nil_iff.mpr hrest,
          List.append_nil]
        rfl
    _ = (List.range ((maxInt - 1) / 2)).flatMap
          fun n => between (n * 2) ((n + 1) * 2) items := List.flatMap_congr hfirst
    _ = items.take (maxInt - 1) := flatMap_between 2 _ items

/-- The pages in 32 bits are a partition of the lists they are right for, and of no other. -/
theorem isPartition_intPage_iff (hsize : pageSize.toInt = size) (hone : 1 ≤ size)
    (hlength : items.length ≤ maxInt) :
    IsPartition size (intPage pageSize items) items ↔ Fits size items.length := by
  refine ⟨fun h => ?_, fun h =>
    isPartition_of_between hone hlength fun n hn => intPage_of_fits hsize h hn⟩
  by_cases hnil : items = []
  · exact .inl (hnil ▸ rfl)
  by_cases hlarge : 3 ≤ size
  · obtain ⟨n, hn, hpast, hne⟩ := exists_intPage_ne_nil hsize hlarge hnil hlength
    exact absurd (h.past (n + 1) (Nat.succ_le_succ (Nat.zero_le n)) hn hpast) hne
  by_cases htwo : size = 2
  · subst htwo
    have hall := h.concatenated
    rw [flatMap_intPage_two hsize] at hall
    have htaken := congrArg List.length hall
    rw [List.length_take, maxInt] at htaken
    exact .inr (.inr ⟨rfl, by rw [maxInt]; omega⟩)
  · exact .inr (.inl (by omega))

/-- A `Long` that is no larger than the largest `Int`. -/
theorem toInt_min_maxInt {x : Int} (hlow : 0 ≤ x) (hhigh : x < 2 ^ 63) :
    (Int32.ofInt (min (wrapLong x) maxInt)).toInt = min x maxInt := by
  have hwrap : wrapLong x = x := Int.bmod_eq_of_le (by omega) (by omega)
  rw [hwrap, maxInt]
  exact Int32.toInt_ofInt_of_le (by omega) (by omega)

/-- In 64 bits every page is right. -/
theorem longPage_eq (hsize : pageSize.toInt = size) (hlength : items.length ≤ maxInt)
    (hn : n < maxInt) :
    longPage pageSize items (n + 1) = between (n * size) ((n + 1) * size) items := by
  have hlast := pageSize.toInt_lt
  have hproduct : n * size ≤ 2 ^ 31 * 2 ^ 31 := by
    rw [maxInt] at hn
    exact Nat.mul_le_mul (by omega) (by omega)
  obtain ⟨x, hx⟩ : ∃ x : Int, x = n * size := ⟨_, rfl⟩
  have hposition : (Int32.ofInt (min (wrapLong x) maxInt)).toInt = min x maxInt :=
    toInt_min_maxInt (by omega) (by omega)
  have hstop : (Int32.ofInt (min (wrapLong (min x maxInt + size)) maxInt)).toInt =
      min (min x maxInt + size) maxInt := by
    rw [maxInt] at hn ⊢
    exact toInt_min_maxInt (by omega) (by omega)
  have hpred : max (Int32.ofInt (n + 1 : Nat) - 1).toInt 0 = n := by
    rw [toInt_pred hn]
    exact Int.max_eq_left (Int.natCast_nonneg n)
  simp only [longPage, slice, hpred, hsize, ← hx, hposition, hstop]
  by_cases hpast : items.length ≤ n * size
  · rw [between_of_length_le hpast, between_of_length_le]
    omega
  · have hstart : (min x maxInt).toNat = n * size := by omega
    rw [hstart]
    refine between_congr ?_ _
    rw [Nat.succ_mul]
    omega

end Bounds

/-! ## The lists of the admin api -/

section Lists

variable {digit : Char → Option Nat} {ops : ListOps Q Entity} {request : ListRequest Q}

/-- The same request, for a page. -/
def ListRequest.numbered (request : ListRequest Q) (number : Nat) : ListRequest Q :=
  { request with page := some (longText number) }

/-- The size of the pages that are asked for: a number, or no size for everything. -/
def ListRequest.Asks (digit : Char → Option Nat) (request : ListRequest Q) (size : Nat) : Prop :=
  match request.pageSize with
  | none => size = maxInt
  | some text => ∃ n, toIntOption digit text = some n ∧ n.toInt = size

theorem toIntOption_longText (hdigit : ReadsDigits digit) {number : Nat} (h : number ≤ maxInt) :
    toIntOption digit (longText number) = some (Int32.ofInt number) := by
  rw [maxInt] at h
  have hlong : isLong number = true := by
    rw [isLong, Bool.and_eq_true, decide_eq_true_eq, decide_eq_true_eq]
    omega
  rw [toIntOption, parseLong_longText hdigit hlong, Option.filter_some, if_pos, Option.map_some]
  rw [decide_eq_true_eq]
  omega

theorem paginationPage_numbered (hdigit : ReadsDigits digit) {number : Nat}
    (h : number ≤ maxInt) :
    (request.numbered number).paginationPage digit = Int32.ofInt number := by
  rw [ListRequest.paginationPage, ListRequest.numbered, Option.bind_some,
    toIntOption_longText hdigit h, Option.getD_some]

theorem toInt_paginationPageSize {size : Nat} (h : request.Asks digit size) :
    (request.paginationPageSize digit).toInt = size := by
  rw [ListRequest.Asks] at h
  rw [ListRequest.paginationPageSize]
  cases hsize : request.pageSize with
  | none =>
      rw [hsize] at h
      rw [h]
      rfl
  | some text =>
      rw [hsize] at h
      obtain ⟨n, hn, hsame⟩ := h
      rw [Option.bind_some, hn, Option.getD_some, hsame]

/-- What `findAllEntities` lists of the entities. -/
def ListOps.listed (ops : ListOps Q Entity) (q : Q) (entities : List Entity) : List JsValue :=
  (ops.sortFinalItems q
    (((entities.filter ops.canUserRead).map ops.writeEntity).filter (ops.keeps q))).map
      (ops.filterJson q)

/-- What `fetchWithPaginationAndFiltering` lists of them. -/
def ListOps.found (ops : ListOps Q Entity) (q : Q) (entities : List Entity) : List Entity :=
  entities.filter fun entity => ops.keeps q (ops.writeEntity entity)

/-- What `process` lists of an array. -/
def ListOps.processed (ops : ListOps Q Entity) (q : Q) (items : List JsValue) : List JsValue :=
  (ops.sortFinalItems q (items.filter (ops.keeps q))).map (ops.filterJson q)

theorem length_listed_le (q : Q) (entities : List Entity) :
    (ops.listed q entities).length ≤ entities.length := by
  rw [ListOps.listed, List.length_map, (ops.perm_sortFinalItems q _).length_eq]
  refine (List.length_filter_le _ _).trans ?_
  rw [List.length_map]
  exact List.length_filter_le _ _

theorem length_processed_le (q : Q) (items : List JsValue) :
    (ops.processed q items).length ≤ items.length := by
  rw [ListOps.processed, List.length_map, (ops.perm_sortFinalItems q _).length_eq]
  exact List.length_filter_le _ _

/-- The elements of an answer. -/
def elements : JsValue → List JsValue
  | .array items => items
  | _ => []

theorem items_findAllEntities (hdigit : ReadsDigits digit) (entities : List Entity) {number : Nat}
    (h : number ≤ maxInt) :
    (findAllEntities digit ops (request.numbered number) (.ok entities : Except ε _)).map
        Listed.items =
      .ok (intPage (request.paginationPageSize digit) (ops.listed request.others entities)
        number) := by
  have hpage : (request.numbered number).paginationPage digit = Int32.ofInt number :=
    paginationPage_numbered hdigit h
  simp only [findAllEntities, hpage]
  rfl

theorem fetchWithPaginationAndFiltering_eq (hdigit : ReadsDigits digit) (entities : List Entity)
    {number : Nat} (h : number ≤ maxInt) :
    fetchWithPaginationAndFiltering digit ops (request.numbered number)
        (.ok entities : Except ε _) =
      .ok (longPage (request.paginationPageSize digit) (ops.found request.others entities)
        number) := by
  have hpage : (request.numbered number).paginationPage digit = Int32.ofInt number :=
    paginationPage_numbered hdigit h
  simp only [fetchWithPaginationAndFiltering, hpage]
  rfl

/-- A size that is asked for is a number. -/
theorem toInt_pageSize {size : Nat} (h : request.Asks digit size) :
    toInt digit request.pageSize Int32.maxValue = .ok (request.paginationPageSize digit) := by
  rw [ListRequest.Asks] at h
  rw [ListRequest.paginationPageSize]
  cases hsize : request.pageSize with
  | none => rfl
  | some text =>
      rw [hsize] at h
      obtain ⟨n, hn, -⟩ := h
      simp only [toInt, hn, Option.bind_some, Option.getD_some]
      rfl

theorem elements_process (hdigit : ReadsDigits digit) {size : Nat} (hasks : request.Asks digit size)
    (items : List JsValue) {number : Nat} (h : number ≤ maxInt) :
    (process digit ops (request.numbered number) (.array items)).map elements =
      .ok (intPage (request.paginationPageSize digit) (ops.processed request.others items)
        number) := by
  have hpage : toInt digit (request.numbered number).page 1 = .ok (Int32.ofInt number) := by
    simp only [ListRequest.numbered, toInt, toIntOption_longText hdigit h]
    rfl
  have hpageSize : toInt digit (request.numbered number).pageSize Int32.maxValue =
      .ok (request.paginationPageSize digit) := toInt_pageSize hasks
  simp only [process, paginateEntity, hpage, hpageSize]
  rw [intPage, slice, ListOps.processed, ← map_between]
  rfl

/-- The pages of a list are a partition of it: always, where the bounds are computed in 64 bits,
and otherwise if and only if nothing is listed, or the pages are of one element, or they are of
two and the list is not the longest there is. -/
theorem partitions_iff (hdigit : ReadsDigits digit) {size : Nat}
    (hasks : request.Asks digit size) (hone : 1 ≤ size) (entities : List Entity)
    (hentities : entities.length ≤ maxInt) (items : List JsValue) (hitems : items.length ≤ maxInt) :
    (Partitions size (fun number => (findAllEntities digit ops (request.numbered number)
        (.ok entities : Except ε _)).map Listed.items) (ops.listed request.others entities) ↔
      Fits size (ops.listed request.others entities).length) ∧
    Partitions size (fun number => fetchWithPaginationAndFiltering digit ops
        (request.numbered number) (.ok entities : Except ε _)) (ops.found request.others entities) ∧
    (Partitions size (fun number => (process digit ops (request.numbered number)
        (.array items)).map elements) (ops.processed request.others items) ↔
      Fits size (ops.processed request.others items).length) := by
  have hsize := toInt_paginationPageSize hasks
  refine ⟨?_, ?_, ?_⟩
  · rw [partitions_iff_of_answers fun number _ h => items_findAllEntities hdigit entities h]
    exact isPartition_intPage_iff hsize hone ((length_listed_le _ _).trans hentities)
  · rw [partitions_iff_of_answers fun number _ h =>
      fetchWithPaginationAndFiltering_eq hdigit entities h]
    have hfound : (ops.found request.others entities).length ≤ maxInt :=
      (List.length_filter_le _ _).trans hentities
    exact isPartition_of_between hone hfound fun n hn => longPage_eq hsize hfound hn
  · rw [partitions_iff_of_answers fun number _ h => elements_process hdigit hasks items h]
    exact isPartition_intPage_iff hsize hone ((length_processed_le _ _).trans hitems)

/-- A list that keeps everything as it is. -/
def plainOps : ListOps Unit JsValue where
  canUserRead _ := true
  writeEntity entity := entity
  keeps _ _ := true
  sortFinalItems _ items := items
  filterJson _ item := item
  perm_sortFinalItems _ items := .refl items

/-- Pages of one element. -/
def singles : ListRequest Unit := ⟨none, some "1".toList, ()⟩

theorem partitions_of_example :
    Partitions 1 (fun number => (findAllEntities asciiDigit plainOps (singles.numbered number)
      (.ok [.null] : Except Str _)).map Listed.items) [.null] :=
  (@partitions_iff _ _ Str _ plainOps singles readsDigits_asciiDigit 1 ⟨1, rfl, rfl⟩
    (Nat.le_refl 1) [.null] (by decide) [] (by decide)).1.mpr (.inr (.inl rfl))

/-- Where no size is asked for, the third page is everything once more. -/
theorem not_forall_partitions :
    ¬ ∀ (digit : Char → Option Nat) (ops : ListOps Unit JsValue) (request : ListRequest Unit)
        (size : Nat) (entities : List JsValue),
      ReadsDigits digit → request.Asks digit size → 1 ≤ size → entities.length ≤ maxInt →
        Partitions size (fun number => (findAllEntities digit ops (request.numbered number)
          (.ok entities : Except Str _)).map Listed.items)
            (ops.listed request.others entities) := by
  intro h
  have hpartitions := h asciiDigit plainOps ⟨none, none, ()⟩ maxInt [.null] readsDigits_asciiDigit
    rfl (by decide) (by decide)
  rw [partitions_iff_of_answers fun number _ hnumber =>
    items_findAllEntities readsDigits_asciiDigit [JsValue.null] hnumber] at hpartitions
  have hthird := hpartitions.past 3 (by decide) (by decide) (by decide)
  cases hthird

end Lists

end Pagination

end Otoroshi
