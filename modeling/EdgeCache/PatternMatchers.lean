import EdgeCache.CacheKey
import EdgeCache.CachePolicy
import EdgeCache.Lib.Utf8

/-!
# The three pattern matchers

A path pattern is interpreted in three places: `purgeMatches` picks the keys a purge takes
out of L1, `RedisCoordinator.l2PathMatches` of the control plane the keys it deletes from
L2, and `RuleStore::patternMatches` the rule that applies to a path.  The second is
TypeScript and works on UTF-16 strings, which is what Redis keys become when the client
library decodes them.

**The three agree** on every key the proxy can build (`matchers_agree`).
-/

namespace EdgeCache

open Scan Utf8

/-! ## The matcher of the control plane -/

/-- A string of the control plane. -/
abbrev JsString := List UInt16

/-- The code unit of an ASCII character. -/
abbrev unit (c : UInt8) : UInt16 := c.toUInt16

/-- `s.indexOf(c, start)`. -/
def indexOf (s : JsString) (c : UInt16) (start : ℕ) : Option ℕ :=
  (find (s.drop start) [c]).map (· + start)

/-- The path part of a key without its prefix, as `l2PathMatches` finds it. -/
def l2Path (rest : JsString) : JsString :=
  let secondBar := (indexOf rest (unit BAR) 0).bind fun firstBar =>
    indexOf rest (unit BAR) (firstBar + 1)
  let path := match secondBar with
    | some j => rest.drop (j + 1)
    | none => rest
  match indexOf path (unit QUESTION) 0 with
  | some q => path.take q
  | none => path

/-- `RedisCoordinator.l2PathMatches`. -/
def l2PathMatches (l2KeyPrefix key pattern : JsString) : Bool :=
  let path := l2Path (key.drop l2KeyPrefix.length)
  if pattern = [unit STAR] ∨ pattern = (bytes "/*").map unit then true
  else if pattern.getLast? = some (unit STAR) then pattern.dropLast.isPrefixOf path
  else path == pattern

theorem drop_after (front : JsString) (c : UInt16) (back : JsString) :
    (front ++ c :: back).drop (front.length + 1) = back := by
  rw [← List.drop_drop, List.drop_left, List.drop_one, List.tail_cons]

theorem indexOf_append {front back : JsString} {c : UInt16} (absent : c ∉ front) :
    indexOf (front ++ c :: back) c 0 = some front.length := by
  rw [indexOf, List.drop_zero, find_singleton_append absent]
  rfl

/-- The first occurrence after a given one. -/
theorem indexOf_append_append {front middle back : JsString} {c : UInt16}
    (absent : c ∉ middle) :
    indexOf (front ++ c :: (middle ++ c :: back)) c (front.length + 1) =
      some (middle.length + (front.length + 1)) := by
  rw [indexOf, drop_after, find_singleton_append absent]
  rfl

/-- **The path is found in a key of the right shape.** -/
theorem l2Path_append {method host path query : JsString} (methodPlain : unit BAR ∉ method)
    (hostPlain : unit BAR ∉ host) (pathPlain : unit QUESTION ∉ path)
    (cut : query = [] ∨ ∃ q, query = unit QUESTION :: q) :
    l2Path (method ++ unit BAR :: (host ++ unit BAR :: (path ++ query))) = path := by
  have dropped : (method ++ unit BAR :: (host ++ unit BAR :: (path ++ query))).drop
      (host.length + (method.length + 1) + 1) = path ++ query := by
    rw [show host.length + (method.length + 1) + 1 = (method.length + 1) + (host.length + 1) by
      omega, ← List.drop_drop, drop_after, drop_after]
  rw [l2Path, indexOf_append methodPlain]
  simp only [Option.bind_some, indexOf_append_append hostPlain, dropped]
  rcases cut with rfl | ⟨q, rfl⟩
  · rw [List.append_nil, indexOf, List.drop_zero, find_singleton_eq_none_iff.mpr pathPlain]
    rfl
  · rw [indexOf_append pathPlain]
    exact List.take_left

/-! ## The key the control plane sees -/

theorem unit_injective : Function.Injective unit := fun _ _ => UInt8.toUInt16_inj.mp

theorem ascii_method {r : HttpRequest} (cacheable : r.isCacheableMethod = true) :
    Ascii r.method ∧ r.method ≠ [] := by
  rw [HttpRequest.isCacheableMethod, Bool.or_eq_true, beq_iff_eq, beq_iff_eq] at cacheable
  rcases cacheable with get | head
  · rw [get]; decide +kernel
  · rw [head]; decide +kernel

/-- The prefix stays apart from the key when both are decoded together. -/
theorem decode_prefix_append {r : HttpRequest} {host : ByteString} (l2Prefix : ByteString)
    (cacheable : r.isCacheableMethod = true) :
    decode (l2Prefix ++ CacheKey.fromRequest r host) =
      decode l2Prefix ++ decode (CacheKey.fromRequest r host) := by
  obtain ⟨ascii, nonempty⟩ := ascii_method cacheable
  obtain ⟨b, more, method⟩ := List.exists_cons_of_ne_nil nonempty
  have first : b < 0x80 := ascii b (by rw [method]; exact List.mem_cons_self)
  rw [CacheKey.fromRequest, method, List.cons_append, decode_append l2Prefix first,
    ← List.nil_append (b :: (more ++ _)), decode_append [] first]
  rfl

/-- The decoded key has the shape of the key. -/
theorem decode_fromRequest {r : HttpRequest} (host : ByteString)
    (cacheable : r.isCacheableMethod = true) :
    ∃ query, (query = [] ∨ ∃ q, query = unit QUESTION :: q) ∧
      decode (CacheKey.fromRequest r host) = r.method.map unit ++
        unit BAR :: (decode host ++ unit BAR :: (decode r.path ++ query)) := by
  have bar : BAR < 0x80 := by decide
  have question : QUESTION < 0x80 := by decide
  have method := decode_of_ascii (ascii_method cacheable).1
  by_cases blank : normalizeQuery r.query = []
  · refine ⟨[], Or.inl rfl, ?_⟩
    simp only [CacheKey.fromRequest, blank, if_true, decode_append _ bar, method, List.append_nil]
  · refine ⟨_, Or.inr ⟨decode (normalizeQuery r.query), rfl⟩, ?_⟩
    simp only [CacheKey.fromRequest, blank, if_false, decode_append _ bar,
      decode_append _ question, method]

/-- **The control plane finds the path of the request in its L2 key.** -/
theorem l2Path_key {r : HttpRequest} {host : ByteString} (l2Prefix : ByteString)
    (cacheable : r.isCacheableMethod = true) (hostPlain : BAR ∉ host)
    (pathPlain : r.PlainPath) :
    l2Path ((decode (l2Prefix ++ CacheKey.fromRequest r host)).drop (decode l2Prefix).length) =
      decode r.path := by
  have bar : BAR < 0x80 := by decide
  have question : QUESTION < 0x80 := by decide
  obtain ⟨query, cut, shape⟩ := decode_fromRequest host cacheable
  rw [decode_prefix_append l2Prefix cacheable, List.drop_left, shape]
  refine l2Path_append ?_ ?_ ?_ cut
  · exact fun mem => bar_notMem_method cacheable ((List.mem_map_of_injective unit_injective).mp mem)
  · exact fun mem => hostPlain (mem_of_mem_decode bar mem)
  · exact fun mem => pathPlain (mem_of_mem_decode question mem)

/-! ## Agreement -/

/-- The matcher of the proxy and the one of the rules read a path alike. -/
theorem purgeMatches_eq_patternMatches (pattern key : ByteString) :
    purgeMatches pattern key = RuleStore.patternMatches pattern (pathOfKey key) := by
  rw [purgeMatches, RuleStore.patternMatches]
  split
  · rfl
  · split
    · rfl
    · exact BEq.comm

theorem isPrefixOf_map_unit (front path : ByteString) :
    (front.map unit).isPrefixOf (path.map unit) = front.isPrefixOf path := by
  rw [Bool.eq_iff_iff, List.isPrefixOf_iff_prefix, List.isPrefixOf_iff_prefix]
  exact List.prefix_map_iff_of_injective unit_injective

/-- **The three pattern matchers agree** on the keys of requests with an ASCII target. -/
theorem matchers_agree {buffer rest : ByteString} {r : HttpRequest} {host pattern : ByteString}
    (l2Prefix : ByteString) (accepted : parse buffer = .complete r rest)
    (cacheable : r.isCacheableMethod = true) (target : Ascii r.target)
    (patternAscii : Ascii pattern) (hostPlain : BAR ∉ host) :
    purgeMatches pattern (CacheKey.fromRequest r host) =
        RuleStore.patternMatches pattern r.path ∧
      l2PathMatches (decode l2Prefix) (decode (l2Prefix ++ CacheKey.fromRequest r host))
          (decode pattern) = RuleStore.patternMatches pattern r.path := by
  have plain := plainPath_of_parse accepted
  have ascii : Ascii r.path := by
    rw [path_eq_of_parse accepted]
    exact fun b mem => target b (List.takeWhile_prefix _ |>.subset mem)
  constructor
  · rw [purgeMatches_eq_patternMatches, pathOfKey_fromRequest cacheable hostPlain plain]
  · have injective := List.map_injective_iff.mpr unit_injective
    rw [l2PathMatches, l2Path_key l2Prefix cacheable hostPlain plain, decode_of_ascii ascii,
      decode_of_ascii patternAscii, RuleStore.patternMatches]
    have star : pattern.map unit = [unit STAR] ↔ pattern = [STAR] :=
      injective.eq_iff (b := [STAR])
    have all : pattern.map unit = (bytes "/*").map unit ↔ pattern = bytes "/*" :=
      injective.eq_iff
    have ends : (pattern.map unit).getLast? = some (unit STAR) ↔
        pattern.getLast? = some STAR := by
      rw [List.getLast?_map]
      exact (Option.map_injective unit_injective).eq_iff (b := some STAR)
    simp only [star, all, ends, ← List.map_dropLast, isPrefixOf_map_unit]
    congr 2
    rw [Bool.eq_iff_iff, beq_iff_eq, beq_iff_eq, injective.eq_iff, eq_comm]

/-- A pattern that stops inside the query string matches nothing in any of the three. -/
theorem matchers_agree_plainGet :
    l2PathMatches (decode (bytes "l2:"))
        (decode (bytes "l2:" ++ CacheKey.fromRequest (plainGet (bytes "/x|y") (bytes "q=/"))
          [0xC3, 0xA9])) (decode (bytes "/x|y?*")) = false := by
  have agree := (matchers_agree (bytes "l2:")
    (show parse (bytes "GET /x|y?q=/ HTTP/1.1\r\n\r\n") =
      .complete (plainGet (bytes "/x|y") (bytes "q=/")) [] by decide +kernel)
    (by decide +kernel) (by decide +kernel) (show Ascii (bytes "/x|y?*") by decide +kernel)
    (show BAR ∉ [0xC3, 0xA9] by decide)).2
  rw [agree]
  decide +kernel

end EdgeCache
