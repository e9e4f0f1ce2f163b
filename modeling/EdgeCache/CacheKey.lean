import EdgeCache.PipelinedParsing

/-!
# Cache keys and purge patterns

A cache key is `method|host|path`, followed by `?` and the normalised query
unless that is empty.  A purge works on keys, so it must find the path in a key
again: `pathOfKey` reads from the second `|` up to the first `?`.  Both
directions are exact for a method and a host without `|` and a path without
`?`; the parser never puts a `?` into a path, and `GET` and `HEAD` have no `|`.
-/

namespace EdgeCache

open Scan

/-- `'|'`. -/
abbrev BAR : UInt8 := 124
/-- `'?'`. -/
abbrev QUESTION : UInt8 := 63
/-- `'&'`. -/
abbrev AMPERSAND : UInt8 := 38
/-- `'*'`. -/
abbrev STAR : UInt8 := 42

/-- `normalizeQuery`: the non-empty parameters in byte order. -/
def normalizeQuery (rawQuery : ByteString) : ByteString :=
  let params := (lines AMPERSAND rawQuery).filter (· ≠ [])
  [AMPERSAND].intercalate (params.insertionSort (· ≤ ·))

/-- `CacheKey::fromRequest(req, host).value`. -/
def CacheKey.fromRequest (r : HttpRequest) (host : ByteString) : ByteString :=
  let q := normalizeQuery r.query
  r.method ++ BAR :: (host ++ BAR :: (r.path ++ if q = [] then [] else QUESTION :: q))

/-- The rest of a string after its first `|`. -/
def afterBar (s : ByteString) : Option ByteString :=
  (find s [BAR]).map fun p => s.drop (p + 1)

/-- `pathOfKey`. -/
def pathOfKey (key : ByteString) : ByteString :=
  match (afterBar key).bind afterBar with
  | none => key
  | some rest =>
      match find rest [QUESTION] with
      | none => rest
      | some q => rest.take q

/-- `purgeMatches`. -/
def purgeMatches (pattern cacheKey : ByteString) : Bool :=
  let path := pathOfKey cacheKey
  if pattern = [STAR] ∨ pattern = bytes "/*" then true
  else if pattern.getLast? = some STAR then pattern.dropLast.isPrefixOf path
  else path == pattern

/-- When a path matches a purge pattern: `*` and `/*` match everything, a
trailing `*` stands for any continuation, and other patterns match themselves. -/
def PathMatches (pattern path : ByteString) : Prop :=
  pattern = [STAR] ∨ pattern = bytes "/*" ∨ (pattern.getLast? = some STAR ∧
    pattern.dropLast <+: path) ∨ path = pattern

/-- A request whose path and query are separate. -/
def HttpRequest.PlainPath (r : HttpRequest) : Prop := QUESTION ∉ r.path

/-- The path of a request the parser completes is its target up to the first `?`. -/
theorem path_eq_of_parse {buffer rest : ByteString} {r : HttpRequest}
    (completed : parse buffer = .complete r rest) :
    r.path = r.target.takeWhile (· ≠ QUESTION) := by
  obtain ⟨headerEnd, out, bodyLen, -, head, -, rfl, -⟩ := parse_eq_complete_iff.mp completed
  obtain ⟨-, -, -, -, -, -, -, path, -⟩ := parseHead_eq_some head
  exact path.trans (by rw [splitTarget_eq])

/-- **Every request the parser completes has a plain path.** -/
theorem plainPath_of_parse {buffer rest : ByteString} {r : HttpRequest}
    (completed : parse buffer = .complete r rest) : r.PlainPath := by
  rw [HttpRequest.PlainPath, path_eq_of_parse completed]
  exact fun mem => by simpa using List.mem_takeWhile_imp mem

theorem afterBar_append {s : ByteString} (absent : BAR ∉ s) (rest : ByteString) :
    afterBar (s ++ BAR :: rest) = some rest := by
  simp [afterBar, find_singleton_append absent]

theorem bar_notMem_method {r : HttpRequest} (cacheable : r.isCacheableMethod = true) :
    BAR ∉ r.method := by
  rw [HttpRequest.isCacheableMethod, Bool.or_eq_true, beq_iff_eq, beq_iff_eq] at cacheable
  rcases cacheable with get | head
  · rw [get]; decide
  · rw [head]; decide

/-- What is left of a `?`-free path once a query has been appended. -/
theorem take_path {path : ByteString} (plain : QUESTION ∉ path) (q : ByteString) :
    (match find (path ++ if q = [] then [] else QUESTION :: q) [QUESTION] with
      | none => path ++ if q = [] then [] else QUESTION :: q
      | some k => (path ++ if q = [] then [] else QUESTION :: q).take k) = path := by
  by_cases empty : q = []
  · simp [empty, find_singleton_eq_none_iff.mpr plain]
  · simp [empty, find_singleton_append plain]

/-- **The path of a request can be read back from its key.** -/
theorem pathOfKey_fromRequest {r : HttpRequest} {host : ByteString}
    (cacheable : r.isCacheableMethod = true) (hostPlain : BAR ∉ host)
    (pathPlain : r.PlainPath) : pathOfKey (CacheKey.fromRequest r host) = r.path := by
  rw [pathOfKey, CacheKey.fromRequest, afterBar_append (bar_notMem_method cacheable),
    Option.bind_some, afterBar_append hostPlain]
  exact take_path pathPlain _

/-- **A key determines the method and the path of its request.** -/
theorem method_path_of_fromRequest_eq {r r' : HttpRequest} {host : ByteString}
    (cacheable : r.isCacheableMethod = true) (cacheable' : r'.isCacheableMethod = true)
    (plain : r.PlainPath) (plain' : r'.PlainPath)
    (same : CacheKey.fromRequest r host = CacheKey.fromRequest r' host) :
    r.method = r'.method ∧ r.path = r'.path := by
  have front := find_singleton_append (bar_notMem_method cacheable)
    (host ++ BAR :: (r.path ++ if normalizeQuery r.query = [] then []
      else QUESTION :: normalizeQuery r.query))
  have front' := find_singleton_append (bar_notMem_method cacheable')
    (host ++ BAR :: (r'.path ++ if normalizeQuery r'.query = [] then []
      else QUESTION :: normalizeQuery r'.query))
  rw [CacheKey.fromRequest, CacheKey.fromRequest] at same
  rw [same, front', Option.some.injEq] at front
  obtain ⟨method, rest⟩ := List.append_inj same front.symm
  have tail := List.cons.inj rest |>.2
  have path := List.cons.inj (List.append_cancel_left tail) |>.2
  refine ⟨method, ?_⟩
  rw [← take_path plain (normalizeQuery r.query), path, take_path plain']

/-! ## Which requests share a key -/

/-- The non-empty `&`-separated pieces of a query string, in the order they stand. -/
def parameters (query : ByteString) : List ByteString :=
  (query.splitOn AMPERSAND).filter (· ≠ [])

theorem normalizeQuery_eq (query : ByteString) :
    normalizeQuery query =
      [AMPERSAND].intercalate ((parameters query).insertionSort (· ≤ ·)) := by
  rw [normalizeQuery, filter_lines, parameters]

theorem amp_notMem_of_mem_parameters {query piece : ByteString}
    (mem : piece ∈ parameters query) : piece ≠ [] ∧ AMPERSAND ∉ piece := by
  obtain ⟨cut, nonempty⟩ := List.mem_filter.mp mem
  exact ⟨of_decide_eq_true nonempty, notMem_of_mem_splitOn cut⟩

/-- **The normalised query shows the sorted parameters.** -/
theorem parameters_normalizeQuery (query : ByteString) :
    parameters (normalizeQuery query) = (parameters query).insertionSort (· ≤ ·) := by
  have pieces : ∀ piece ∈ (parameters query).insertionSort (· ≤ ·),
      piece ≠ [] ∧ AMPERSAND ∉ piece := fun piece mem =>
    amp_notMem_of_mem_parameters ((List.mem_insertionSort _).mp mem)
  rw [normalizeQuery_eq]
  generalize (parameters query).insertionSort (· ≤ ·) = sorted at pieces
  by_cases none_ : sorted = []
  · rw [none_]
    rfl
  · rw [parameters, List.splitOn_intercalate _ (fun piece mem => (pieces piece mem).2) none_]
    exact List.filter_eq_self.mpr fun piece mem => decide_eq_true (pieces piece mem).1

/-- **Sorting is a canonical form**: queries are normalised alike exactly when their
parameters agree up to order. -/
theorem normalizeQuery_eq_iff {query query' : ByteString} :
    normalizeQuery query = normalizeQuery query' ↔
      (parameters query).Perm (parameters query') := by
  constructor
  · intro same
    have sorted := congrArg parameters same
    rw [parameters_normalizeQuery, parameters_normalizeQuery] at sorted
    exact (List.perm_insertionSort _ _).symm.trans
      (sorted ▸ List.perm_insertionSort _ (parameters query'))
  · intro perm
    rw [normalizeQuery_eq, normalizeQuery_eq]
    have sorted := (List.perm_insertionSort (· ≤ ·) (parameters query)).trans
      (perm.trans (List.perm_insertionSort (· ≤ ·) (parameters query')).symm)
    rw [sorted.eq_of_pairwise' (List.pairwise_insertionSort (· ≤ ·) _)
      (List.pairwise_insertionSort (· ≤ ·) _)]

/-- **A key determines the method, the path and the normalised query.** -/
theorem fromRequest_eq_iff {r r' : HttpRequest} {host : ByteString}
    (cacheable : r.isCacheableMethod = true) (cacheable' : r'.isCacheableMethod = true)
    (plain : r.PlainPath) (plain' : r'.PlainPath) :
    CacheKey.fromRequest r host = CacheKey.fromRequest r' host ↔
      r.method = r'.method ∧ r.path = r'.path ∧
        normalizeQuery r.query = normalizeQuery r'.query := by
  constructor
  · intro same
    obtain ⟨method, path⟩ := method_path_of_fromRequest_eq cacheable cacheable' plain plain' same
    refine ⟨method, path, ?_⟩
    simp only [CacheKey.fromRequest, method, path, List.append_cancel_left_eq,
      List.cons.injEq, true_and] at same
    by_cases blank : normalizeQuery r.query = [] <;>
      by_cases blank' : normalizeQuery r'.query = [] <;> simp_all
  · rintro ⟨method, path, query⟩
    simp only [CacheKey.fromRequest, method, path, query]

/-- **Keys identify exactly the right requests.**  Requests with the same host share a key
exactly when they have the same method, the same path and the same parameters, in whatever
order. -/
theorem key_eq_iff_of_parse {buffer buffer' rest rest' : ByteString} {r r' : HttpRequest}
    (host : ByteString) (accepted : parse buffer = .complete r rest)
    (accepted' : parse buffer' = .complete r' rest')
    (cacheable : r.isCacheableMethod = true) (cacheable' : r'.isCacheableMethod = true) :
    CacheKey.fromRequest r host = CacheKey.fromRequest r' host ↔
      r.method = r'.method ∧ r.path = r'.path ∧
        (parameters r.query : Multiset ByteString) = parameters r'.query := by
  rw [fromRequest_eq_iff cacheable cacheable' (plainPath_of_parse accepted)
    (plainPath_of_parse accepted'), normalizeQuery_eq_iff, Multiset.coe_eq_coe]

/-- The request `GET target HTTP/1.1` without headers. -/
def plainGet (path query : ByteString) : HttpRequest where
  method := bytes "GET"
  target := if query = [] then path else path ++ QUESTION :: query
  version := bytes "HTTP/1.1"
  headers := Headers.empty
  body := []
  path := path
  query := query

/-- Separators in the path, the query and the host mislead no key. -/
theorem key_eq_iff_reordered :
    (parameters (bytes "b=2&&a=1|?") : Multiset ByteString) = parameters (bytes "a=1|?&b=2&") :=
  ((key_eq_iff_of_parse (bytes "h|")
    (show parse (bytes "GET /x|y?b=2&&a=1|? HTTP/1.1\r\n\r\n") =
      .complete (plainGet (bytes "/x|y") (bytes "b=2&&a=1|?")) [] by decide +kernel)
    (show parse (bytes "GET /x|y?a=1|?&b=2& HTTP/1.1\r\n\r\n") =
      .complete (plainGet (bytes "/x|y") (bytes "a=1|?&b=2&")) [] by decide +kernel)
    (by decide +kernel) (by decide +kernel)).mp (by decide +kernel)).2.2

/-- **A purge pattern is matched against the path of the request.** -/
theorem purgeMatches_fromRequest {r : HttpRequest} {host : ByteString} (pattern : ByteString)
    (cacheable : r.isCacheableMethod = true) (hostPlain : BAR ∉ host)
    (pathPlain : r.PlainPath) :
    purgeMatches pattern (CacheKey.fromRequest r host) = true ↔ PathMatches pattern r.path := by
  rw [purgeMatches, pathOfKey_fromRequest cacheable hostPlain pathPlain, PathMatches]
  by_cases all : pattern = [STAR] ∨ pattern = bytes "/*"
  · simp only [all, if_true, true_iff]
    exact all.elim Or.inl fun slash => Or.inr (Or.inl slash)
  · rw [not_or] at all
    simp only [all.1, all.2, or_self, if_false, false_or]
    by_cases star : pattern.getLast? = some STAR
    · simp only [star, if_true, true_and, List.isPrefixOf_iff_prefix]
      refine ⟨Or.inl, fun cases => cases.elim id ?_⟩
      rintro rfl
      exact List.dropLast_prefix _
    · simp [star]

/-- The order of the parameters and empty ones do not show in the key. -/
example : normalizeQuery (bytes "b=2&&a=1&") = bytes "a=1&b=2" := by decide +kernel

end EdgeCache
