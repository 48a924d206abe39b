/-
# The tree router

Routes declare domains with paths. `NgTreeRouter.build` files each route under
its lower cased domain, in a tree whose edges are path segments; a segment may
be a literal, a wildcard (`v*`), a named parameter (`:id`) or a regex parameter
(`$id<[0-9]+>`). `find` walks the tree along the request, one child for each
segment, and falls back on the routes of a node when nothing below it answers.

The search is written once, over any monad that offers the operations it uses:
the two entry points of `RegexPool` and the two caches of a node. `RouterM` runs
it with the shared pool and the caches as the program does; a stateless
instance serves the proofs.

A set of keys has an iteration order of its own on the platform. The orders are
parameters, as are the regular expression engine and the lower casing.
-/

import Mathlib.Data.List.AList
import Mathlib.Data.List.Dedup
import Mathlib.Data.List.Sort
import Otoroshi.Foundation.Stateful
import Otoroshi.Foundation.Trie
import Otoroshi.Utils.RegexPool

namespace Otoroshi

/-! ## Routes -/

/-- A declared domain with its path, kept as the configured text. -/
structure NgDomainAndPath where
  raw : Str
  deriving DecidableEq

namespace NgDomainAndPath

/-- What stands before the first slash. -/
def domain (declared : NgDomainAndPath) : Str := (splitFirst '/' declared.raw).1

/-- What stands after the first slash, with a slash before it. -/
def path (declared : NgDomainAndPath) : Str :=
  match (splitFirst '/' declared.raw).2 with
  | none => "/".toList
  | some rest => if rest.isEmpty then "/".toList else '/' :: rest

def pathEndsWithSlash (declared : NgDomainAndPath) : Bool :=
  endsWith declared.raw "/".toList

end NgDomainAndPath

/-- The part of a route's frontend the tree reads. -/
structure NgFrontend where
  domains : List NgDomainAndPath
  deriving DecidableEq

/-- A route. `rest` stands for the fields the tree never reads: they only make
two routes different. -/
structure NgRoute where
  id : Str
  frontend : NgFrontend
  rest : Str
  deriving DecidableEq

/-- A route declared at one domain and path. -/
def NgRoute.declaring (id raw : String) : NgRoute where
  id := id.toList
  frontend := { domains := [⟨raw.toList⟩] }
  rest := []

/-- The segments of a path, declared or requested. -/
def pathSegments (path : Str) : List Str :=
  (split '/' path).filter fun segment => !isBlank segment

/-- A node of the tree: the routes declared at its path, and the sub trees by
segment. -/
abbrev NgTreeNodePath := Trie Str NgRoute

/-- The parameters of a path, by name. -/
abbrev PathParams := AList fun _ : Str => Str

-- decided on the entries, by a term that evaluates
instance : DecidableEq PathParams := fun params others =>
  decidable_of_iff (params.entries = others.entries) AList.ext_iff.symm

/-- The routes a search ends with, and what it knows of the request. -/
structure NgMatchedRoutes where
  routes : List NgRoute
  path : Str
  pathParams : PathParams
  noMoreSegments : Bool
  deriving DecidableEq

/-- What the search takes from its platform. -/
structure Platform where
  engine : RegexEngine
  toLowerCase : Str → Str
  /-- The order in which a set of keys is iterated. -/
  keyOrder : List Str → List Str
  keyOrder_perm : ∀ keys, (keyOrder keys).Perm keys
  /-- The order in which a set of nodes is iterated. -/
  nodeOrder : List NgTreeNodePath → List NgTreeNodePath
  nodeOrder_perm : ∀ nodes, (nodeOrder nodes).Perm nodes

/-- A platform with the engine of starred literals, whose sets iterate in the
order they are given. -/
def starPlatform : Platform where
  engine := starEngine
  toLowerCase s := s.map Char.toLower
  keyOrder keys := keys
  keyOrder_perm _ := List.Perm.refl _
  nodeOrder nodes := nodes
  nodeOrder_perm _ := List.Perm.refl _

/-- The operations of a search that touch shared state. -/
structure SearchOps (m : Type → Type) where
  /-- `RegexPool(key).matches(segment)` -/
  wildcardMatches : Str → Str → m Bool
  /-- `RegexPool.regex(regex).matches(segment)` -/
  regexMatches : Str → Str → m Bool
  raise : {α : Type} → JvmException → m α
  /-- `wildcardCache.get(segment, _ => compute)` on a node -/
  wildcardCache : NgTreeNodePath → Str → m (Option NgTreeNodePath) → m (Option NgTreeNodePath)
  /-- `segmentStartsWithCache.get(segment, _ => compute)` on a node -/
  segmentStartsWithCache : NgTreeNodePath → Str → m (Option NgTreeNodePath × Bool) →
    m (Option NgTreeNodePath × Bool)

/-! ## Keys of a node -/

/-- The key holds a star: it goes through `RegexPool.apply`. -/
def isWildcardKey (key : Str) : Bool := key.contains '*'

/-- The key is a named parameter. -/
def isNamedKey (key : Str) : Bool := startsWith key ":".toList

/-- The key is a regex parameter. -/
def isRegexKey (key : Str) : Bool := startsWith key "$".toList && endsWith key ">".toList

/-- `key.replaceFirst(":", "")` on a named key. -/
def namedKeyName (key : Str) : Str := key.drop 1

/-- `key.substring(1).split("<").head` -/
def regexKeyName (key : Str) : Str := (split '<' (key.drop 1)).headD []

/-- `init`, which throws on the empty string. -/
def init (s : Str) : Except JvmException Str :=
  if s.isEmpty then .error .emptyInit else .ok s.dropLast

/-- `key.split("<").tail.mkString("<").init` -/
def regexOfKey (key : Str) : Except JvmException Str :=
  init ("<".toList.intercalate (split '<' key).tail)

namespace NgTreeNodePath

variable (P : Platform)

def routes (node : NgTreeNodePath) : List NgRoute := node.values

def isLeaf (node : NgTreeNodePath) : Bool := node.children.isEmpty

def isEmpty (node : NgTreeNodePath) : Bool := node.routes.isEmpty && isLeaf node

/-- The keys of the node as its set of keys iterates them. -/
def keySet (node : NgTreeNodePath) : List Str := P.keyOrder (KeyedList.keys node.children)

def wildcardKeys (node : NgTreeNodePath) : List Str :=
  P.keyOrder ((KeyedList.keys node.children).filter isWildcardKey)

def namedKeys (node : NgTreeNodePath) : List Str :=
  P.keyOrder ((KeyedList.keys node.children).filter isNamedKey)

def regexKeys (node : NgTreeNodePath) : List Str :=
  P.keyOrder ((KeyedList.keys node.children).filter isRegexKey)

def wildcardEntry (node : NgTreeNodePath) : Option NgTreeNodePath := node.child? "*".toList

/-- `NgTreeNodePath.addSubRoutes`. -/
def addSubRoutes (node : NgTreeNodePath) (segments : List Str) (route : NgRoute) :
    NgTreeNodePath :=
  node.insert segments route

/-- `a.copy(routes = a.routes ++ b.routes, tree = a.tree ++ b.tree)`: on a key of
both trees the second sub tree replaces the first. -/
def merge (a b : NgTreeNodePath) : NgTreeNodePath :=
  .node (a.routes ++ b.routes) (KeyedList.override a.children b.children)

/-- The fold of `merge` over a set of nodes; equal nodes are one element. -/
def mergeAll (nodes : List NgTreeNodePath) : NgTreeNodePath :=
  (P.nodeOrder nodes.dedup).foldl merge .empty

/-- The routes of the node itself take the request, with what is left of it. -/
def own (node : NgTreeNodePath) (path : Str) (pathParams : PathParams)
    (noMoreSegments : Bool) : Option NgMatchedRoutes :=
  if node.routes.isEmpty then none
  else some { routes := node.routes, path, pathParams, noMoreSegments }

variable {m : Type → Type} [Monad m] (ops : SearchOps m)

/-- The first wildcard key that accepts the segment. -/
def findWildcardKey (segment : Str) : List Str → m (Option Str)
  | [] => pure none
  | key :: keys => do
      if ← ops.wildcardMatches key segment then pure (some key)
      else findWildcardKey segment keys

/-- `NgTreeNodePath.wildcardEntriesMatching`. -/
def wildcardEntriesMatching (node : NgTreeNodePath) (segment : Str) :
    m (Option NgTreeNodePath) :=
  ops.wildcardCache node segment do
    let key ← findWildcardKey ops segment (wildcardKeys P node)
    pure (key.bind node.child?)

/-- The regex of each key, read before any of them is tried. -/
def readRegexKeys : List Str → m (List (Str × Str))
  | [] => pure []
  | key :: keys => do
      match regexOfKey key with
      | .error e => ops.raise e
      | .ok regex => do
          let rest ← readRegexKeys keys
          pure ((key, regex) :: rest)

/-- The keys whose regex accepts the segment. -/
def filterRegexKeys (segment : Str) : List (Str × Str) → m (List Str)
  | [] => pure []
  | (key, regex) :: keys => do
      let accepted ← ops.regexMatches regex segment
      let rest ← filterRegexKeys segment keys
      pure (if accepted then key :: rest else rest)

/-- The regex keys of the node that accept the segment. -/
def matchingRegexKeys (node : NgTreeNodePath) (segment : Str) : m (List Str) := do
  let pairs ← readRegexKeys ops (regexKeys P node)
  let keys ← filterRegexKeys ops segment pairs
  pure (P.keyOrder keys)

/-- Bind each of the names to the segment. -/
def bindAll (names : List Str) (segment : Str) (pathParams : PathParams) : PathParams :=
  names.foldl (fun params name => params.insert name segment) pathParams

/-- The parameter branch: bind the names of the named keys and of the regex keys
that accept the segment, and merge the sub trees of all of them. -/
def paramEntry (node : NgTreeNodePath) (head : Str) (pathParams : PathParams) :
    m (PathParams × Option NgTreeNodePath) := do
  let named := namedKeys P node
  let bound := bindAll (named.map namedKeyName) head pathParams
  let nroute := mergeAll P (named.filterMap node.child?)
  let matching ← matchingRegexKeys P ops node head
  let bound := bindAll (matching.map regexKeyName) head bound
  let rroute := mergeAll P (matching.filterMap node.child?)
  if named.isEmpty && matching.isEmpty then pure (bound, none)
  else pure (bound, some (merge nroute rroute))

/-- Scan the keys for one the segment starts with; the flag records that a plain
key was tried. -/
def scanSegmentStarts (head : Str) : List Str → Bool → m (Option Str × Bool)
  | [], sw => pure (none, sw)
  | key :: keys, sw =>
      if isWildcardKey key then do
        if ← ops.wildcardMatches key head then pure (some key, sw)
        else scanSegmentStarts head keys sw
      else if startsWith head key then pure (some key, true)
      else scanSegmentStarts head keys true

/-- The keys of the node, longest first. -/
def keysByLength (node : NgTreeNodePath) : List Str :=
  (keySet P node).insertionSort fun r1 r2 => r2.length ≤ r1.length

/-- The lookup behind `segmentStartsWithCache`. -/
def segmentStartsWith (node : NgTreeNodePath) (head : Str) :
    m (Option NgTreeNodePath × Bool) :=
  ops.segmentStartsWithCache node head do
    let (key, sw) ← scanSegmentStarts ops head (keysByLength P node) false
    pure (key.bind node.child?, sw)

/-- The routes a trailing slash keeps out of the string prefix branch. -/
def needsExactSegment (head : Str) (route : NgRoute) : Bool :=
  route.frontend.domains.all fun declared =>
    declared.pathEndsWithSlash || startsWith (declared.path.drop 1) head

/-- The node behind a string prefix: its sub tree is cut, and so are the routes
that only accept whole segments. -/
def cutForPrefix (trailingSlashMeansExactSegments : Bool) (head : Str)
    (node : NgTreeNodePath) : NgTreeNodePath :=
  if trailingSlashMeansExactSegments then
    .node (node.routes.filter fun route => !needsExactSegment head route) []
  else .node node.routes []

/-- The key equal to the segment, else the parameters if the node has any. -/
def exactOrParams (node : NgTreeNodePath) (head : Str) (pathParams : PathParams) :
    m (PathParams × Option NgTreeNodePath) :=
  match node.child? head with
  | some sub => pure (pathParams, some sub)
  | none =>
      if !(namedKeys P node).isEmpty || !(regexKeys P node).isEmpty then
        paramEntry P ops node head pathParams
      else pure (pathParams, none)

/-- The sub tree of the next segment: the key equal to it, else the parameters,
else the wildcards. -/
def entryFor (node : NgTreeNodePath) (head : Str) (pathParams : PathParams) :
    m (PathParams × Option NgTreeNodePath) := do
  let (pathParams, entry) ← exactOrParams P ops node head pathParams
  if entry.isNone && !(wildcardKeys P node).isEmpty then do
    let matching ← wildcardEntriesMatching P ops node head
    pure (pathParams, matching.or (wildcardEntry node))
  else pure (pathParams, entry)

/-- `NgTreeNodePath.find`. The first component of the result is the content of
the map of parameters once the call returns: the map is shared, so what an
abandoned branch bound stays in it. -/
def find : List Str → NgTreeNodePath → Bool → Str → PathParams → Bool →
    m (PathParams × Option NgMatchedRoutes)
  | [], node, _, path, pathParams, _ => pure (pathParams, own node path pathParams true)
  | head :: tail, node, endsWithSlash, path, pathParams, trailingSlashMeansExactSegments => do
      let (pathParams, mptree) ← entryFor P ops node head pathParams
      match mptree with
      | none =>
          -- nothing takes the segment whole: the string prefixes, unless the
          -- request ends with a slash
          if endsWithSlash || isLeaf node then
            pure (pathParams, own node path pathParams false)
          else do
            let (mSubTree, sw) ← segmentStartsWith P ops node head
            match mSubTree with
            | none => pure (pathParams, own node path pathParams false)
            | some ptree => do
                let sub := if sw then cutForPrefix trailingSlashMeansExactSegments head ptree
                  else ptree
                let (pathParams, found) ← find tail sub endsWithSlash (path ++ '/' :: head)
                  pathParams trailingSlashMeansExactSegments
                match found with
                | none => pure (pathParams, own node path pathParams false)
                | some matched =>
                    pure (pathParams,
                      some (if sw then { matched with noMoreSegments := false } else matched))
      | some ptree =>
          if isEmpty ptree then pure (pathParams, own node path pathParams false)
          else if isLeaf ptree then
            pure (pathParams, own ptree (path ++ '/' :: head) pathParams tail.isEmpty)
          else do
            let (pathParams, found) ← find tail ptree endsWithSlash (path ++ '/' :: head)
              pathParams trailingSlashMeansExactSegments
            match found with
            | none => pure (pathParams, own node path pathParams false)
            | some matched => pure (pathParams, some matched)

end NgTreeNodePath

/-! ## The router -/

/-- A route behind a wildcard domain. -/
structure NgRouteDomainAndPathWrapper where
  route : NgRoute
  domain : Str
  path : Str

/-- The trees by domain, and the wildcard domains in the order they are tried.
Every wildcard domain has its tree. -/
structure NgTreeRouter where
  tree : List (Str × NgTreeNodePath)
  wildcards : List NgRouteDomainAndPathWrapper
  tree_of_wildcard : ∀ w ∈ wildcards, ∃ node, KeyedList.get? w.domain tree = some node

namespace NgTreeRouter

variable (P : Platform)

def empty : NgTreeRouter where
  tree := []
  wildcards := []
  tree_of_wildcard := by simp

/-- File a route under one of its domains. -/
def addDomain (route : NgRoute) (root : NgTreeRouter) (dpath : NgDomainAndPath) :
    NgTreeRouter where
  tree :=
    KeyedList.put (P.toLowerCase dpath.domain)
      (NgTreeNodePath.addSubRoutes
        ((KeyedList.get? (P.toLowerCase dpath.domain) root.tree).getD .empty)
        (pathSegments dpath.path) route)
      root.tree
  wildcards :=
    if (P.toLowerCase dpath.domain).contains '*' then
      root.wildcards ++ [⟨route, P.toLowerCase dpath.domain, dpath.path⟩]
    else root.wildcards
  tree_of_wildcard := by
    intro w hw
    rw [KeyedList.get?_put]
    by_cases hdomain : w.domain = P.toLowerCase dpath.domain
    · exact ⟨_, if_pos hdomain⟩
    · rw [if_neg hdomain]
      apply root.tree_of_wildcard
      split at hw
      · rcases List.mem_append.mp hw with hw | hw
        · exact hw
        · rw [List.mem_singleton] at hw
          exact absurd (by rw [hw]) hdomain
      · exact hw

/-- File a route under all of its domains. -/
def addRoute (root : NgTreeRouter) (route : NgRoute) : NgTreeRouter :=
  route.frontend.domains.foldl (addDomain P route) root

/-- The longest wildcard domains first. -/
def sortWildcards (root : NgTreeRouter) : NgTreeRouter where
  tree := root.tree
  wildcards := root.wildcards.insertionSort fun r1 r2 => r2.domain.length ≤ r1.domain.length
  tree_of_wildcard := fun w hw =>
    root.tree_of_wildcard w ((List.perm_insertionSort _ _).mem_iff.mp hw)

/-- `NgTreeRouter.build`. -/
def build (routes : List NgRoute) : NgTreeRouter :=
  sortWildcards (routes.foldl (addRoute P) empty)

variable {m : Type → Type} [Monad m] (ops : SearchOps m)

/-- The first wildcard domain that accepts the domain of the request. -/
def firstWildcard (domain : Str) :
    List NgRouteDomainAndPathWrapper → m (Option NgRouteDomainAndPathWrapper)
  | [] => pure none
  | route :: routes => do
      if ← ops.wildcardMatches route.domain domain then pure (some route)
      else firstWildcard domain routes

/-- The search in the tree of a domain. -/
def findInTree (ptree : NgTreeNodePath) (path : Str) (trailingSlashMeansExactSegments : Bool) :
    m (Option NgMatchedRoutes) := do
  let (_, found) ← NgTreeNodePath.find P ops (pathSegments path) ptree
    (endsWith path "/".toList) [] ∅ trailingSlashMeansExactSegments
  pure found

/-- `NgTreeRouter.findWildcard`: the search goes on in the tree of the wildcard
domain, which the router always has. -/
def findWildcard (router : NgTreeRouter) (domain path : Str)
    (trailingSlashMeansExactSegments : Bool) : m (Option NgMatchedRoutes) := do
  match ← firstWildcard ops domain router.wildcards with
  | none => pure none
  | some route =>
      match KeyedList.get? route.domain router.tree with
      | some ptree => findInTree P ops ptree path trailingSlashMeansExactSegments
      | none => pure none

/-- `NgTreeRouter.find`. -/
def find (router : NgTreeRouter) (domain path : Str)
    (trailingSlashMeansExactSegments : Bool) : m (Option NgMatchedRoutes) :=
  match KeyedList.get? domain router.tree with
  | some ptree => findInTree P ops ptree path trailingSlashMeansExactSegments
  | none => findWildcard P ops router domain path trailingSlashMeansExactSegments

end NgTreeRouter

end Otoroshi
