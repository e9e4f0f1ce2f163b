import EdgeCache.Http
import EdgeCache.Lib.Scan

/-!
# Caching policies

A `CachePolicy` decides from the path and the response whether the response may
be stored and for how long.  `HeaderBasedPolicy` reads the status and the
`Cache-Control` header; `RuleOverridePolicy` lets the first matching rule of the
rule store decide instead.

The handler writes headers of its own on the responses it hands on, and a
coalesced waiter asks the policy about the response with those headers on it.
Both policies of the program are **blind** to them: neither reads anything but
the status and `Cache-Control`.
-/

namespace EdgeCache

open Scan

/-- `CacheDecision`. -/
structure CacheDecision where
  cacheable : Bool
  ttlSeconds : UInt64
  staleWhileRevalidateSeconds : UInt64
  reason : ByteString
  deriving DecidableEq

/-- A `CacheDecision` that refuses, with its reason. -/
def CacheDecision.refuse (reason : ByteString) : CacheDecision where
  cacheable := false
  ttlSeconds := 0
  staleWhileRevalidateSeconds := 0
  reason := reason

/-- `CachePolicy::decide`. -/
abbrev CachePolicy := ByteString → HttpResponse → CacheDecision

/-! ## Cache-Control directives -/

/-- `std::stol` of a run of digits; `none` where it throws. -/
def stol (digits : ByteString) : Option ℤ :=
  if digits = [] then none
  else if decimalValue digits < 2 ^ 63 then some (decimalValue digits) else none

/-- The rounds of `hasDirective`, searching `low` from the position `pos`. -/
def directiveFrom (low directive : ByteString) : ℕ → ℕ → Option (Option ℤ)
  | 0, _ => none
  | fuel + 1, pos =>
      match find (low.drop pos) directive with
      | none => none
      | some offset =>
          let pos := pos + offset
          let boundaryBefore :=
            pos = 0 ∨ low[pos - 1]? = some 44 ∨ low[pos - 1]? = some 32
          let after := pos + directive.length
          let nextCh := low[after]?.getD 0
          let boundaryAfter := nextCh = 0 ∨ nextCh = 44 ∨ nextCh = 32 ∨ nextCh = 61
          if boundaryBefore ∧ boundaryAfter then
            some (if nextCh = 61 then stol ((low.drop (after + 1)).takeWhile isdigit) else none)
          else directiveFrom low directive fuel after

/-- `hasDirective`: `none` where the directive is absent, and otherwise the
number written to `outValue`, if any.  Every round moves past an occurrence of
the directive, so there are no more rounds than bytes. -/
def hasDirective (cc directive : ByteString) : Option (Option ℤ) :=
  directiveFrom (lower cc) directive (cc.length + 1) 0

/-! ## `HeaderBasedPolicy` -/

/-- `statusCacheable`. -/
def statusCacheable (status : Int32) : Bool :=
  status == 200 || status == 203 || status == 204 || status == 301 || status == 404

/-- The lifetime `Cache-Control` gives, `-1` where it gives none. -/
def headerTtl (cc : ByteString) : ℤ :=
  match hasDirective cc (bytes "s-maxage") with
  | some v => v.getD 0
  | none =>
      match hasDirective cc (bytes "max-age") with
      | some v => v.getD 0
      | none => -1

/-- `HeaderBasedPolicy(defaultTtl).decide`. -/
def HeaderBasedPolicy.decide (defaultTtl : UInt64) : CachePolicy := fun _ resp =>
  let cc := resp.header (bytes "Cache-Control")
  if statusCacheable resp.status = false then .refuse (bytes "status-not-cacheable")
  else if (hasDirective cc (bytes "no-store")).isSome then .refuse (bytes "no-store")
  else if (hasDirective cc (bytes "private")).isSome then .refuse (bytes "private")
  else if (hasDirective cc (bytes "no-cache")).isSome then .refuse (bytes "no-cache")
  else
    let ttl := headerTtl cc
    if ttl < 0 then
      { cacheable := true
        ttlSeconds := defaultTtl
        staleWhileRevalidateSeconds := 0
        reason := bytes "heuristic-default-ttl" }
    else if ttl = 0 then .refuse (bytes "max-age-0")
    else
      { cacheable := true
        ttlSeconds := UInt64.ofInt ttl
        staleWhileRevalidateSeconds := 0
        reason := bytes "origin-max-age" }

/-! ## `RuleOverridePolicy` -/

/-- `Rule`. -/
structure Rule where
  pathPattern : ByteString
  ttlSeconds : UInt64
  staleWhileRevalidateSeconds : UInt64
  originId : ByteString
  deriving DecidableEq

/-- `RuleStore::patternMatches`. -/
def RuleStore.patternMatches (pattern path : ByteString) : Bool :=
  if pattern = [42] ∨ pattern = bytes "/*" then true
  else if pattern.getLast? = some 42 then pattern.dropLast.isPrefixOf path
  else pattern == path

/-- `RuleStore::match` on the stored rules. -/
def RuleStore.findRule (rules : List Rule) (path : ByteString) : Option Rule :=
  rules.find? fun r => RuleStore.patternMatches r.pathPattern path

/-- `RuleOverridePolicy(rules, inner).decide`. -/
def RuleOverridePolicy.decide (rules : List Rule) (defaultTtl : UInt64) : CachePolicy :=
  fun path resp =>
    match RuleStore.findRule rules path with
    | some rule =>
        if rule.ttlSeconds = 0 then .refuse (bytes "rule-no-cache")
        else if 500 ≤ resp.status then .refuse (bytes "rule-but-server-error")
        else
          { cacheable := true
            ttlSeconds := rule.ttlSeconds
            staleWhileRevalidateSeconds := rule.staleWhileRevalidateSeconds
            reason := bytes "rule-override" }
    | none => HeaderBasedPolicy.decide defaultTtl path resp

/-! ## Blindness to the proxy's own headers -/

/-- The headers the handler writes on the responses it serves. -/
def proxyHeaders : List ByteString :=
  [bytes "X-Cache", bytes "X-EdgeCache-Replica", bytes "X-Cache-Policy", bytes "X-Cache-Tier",
    bytes "Age"]

/-- **A policy that does not read the proxy's own headers.** -/
def CachePolicy.Blind (policy : CachePolicy) : Prop :=
  ∀ path resp name value, name ∈ proxyHeaders →
    policy path (resp.setHeader name value) = policy path resp

/-- A policy that reads only the status and `Cache-Control` is blind. -/
theorem CachePolicy.blind_of_reads {policy : CachePolicy}
    (reads : ∀ path resp resp', resp.status = resp'.status →
      resp.header (bytes "Cache-Control") = resp'.header (bytes "Cache-Control") →
      policy path resp = policy path resp') : policy.Blind := by
  intro path resp name value own
  have apart : ∀ name ∈ proxyHeaders, lower name ≠ lower (bytes "Cache-Control") := by decide
  refine reads _ _ _ rfl ?_
  rw [HttpResponse.header_setHeader, if_neg (apart name own)]

/-- **The header policy is blind to the proxy's own headers.** -/
theorem HeaderBasedPolicy.blind (defaultTtl : UInt64) :
    CachePolicy.Blind (HeaderBasedPolicy.decide defaultTtl) := by
  refine CachePolicy.blind_of_reads fun path resp resp' status control => ?_
  simp only [HeaderBasedPolicy.decide, status, control]

/-- **The rule policy is blind to the proxy's own headers.** -/
theorem RuleOverridePolicy.blind (rules : List Rule) (defaultTtl : UInt64) :
    CachePolicy.Blind (RuleOverridePolicy.decide rules defaultTtl) := by
  refine CachePolicy.blind_of_reads fun path resp resp' status control => ?_
  simp only [RuleOverridePolicy.decide, HeaderBasedPolicy.decide, status, control]

/-! ## Server errors -/

/-- **A policy that lets no server error be stored.** -/
def CachePolicy.RefusesErrors (policy : CachePolicy) : Prop :=
  ∀ path resp, (policy path resp).cacheable = true → resp.status < 500

/-- **The header policy refuses server errors.** -/
theorem HeaderBasedPolicy.refusesErrors (defaultTtl : UInt64) :
    CachePolicy.RefusesErrors (HeaderBasedPolicy.decide defaultTtl) := by
  intro path resp cacheable
  have status : statusCacheable resp.status = true := by
    by_contra refused
    rw [HeaderBasedPolicy.decide, if_pos (Bool.eq_false_iff.mpr refused)] at cacheable
    cases cacheable
  simp only [statusCacheable, Bool.or_eq_true, beq_iff_eq] at status
  rcases status with (((ok | ok) | ok) | ok) | ok <;> rw [ok] <;> decide

/-- **The rule policy refuses server errors**, also where a rule overrides everything. -/
theorem RuleOverridePolicy.refusesErrors (rules : List Rule) (defaultTtl : UInt64) :
    CachePolicy.RefusesErrors (RuleOverridePolicy.decide rules defaultTtl) := by
  intro path resp cacheable
  unfold RuleOverridePolicy.decide at cacheable
  split at cacheable
  · split at cacheable
    · cases cacheable
    · split at cacheable
      · cases cacheable
      · rename_i small
        exact Int32.not_le.mp small
  · exact HeaderBasedPolicy.refusesErrors defaultTtl path resp cacheable

/-- Only whole tokens count as a directive. -/
example : hasDirective (bytes "xno-store, Max-Age=60") (bytes "no-store") = none ∧
    hasDirective (bytes "xno-store, Max-Age=60") (bytes "max-age") = some (some 60) := by
  decide +kernel

end EdgeCache
