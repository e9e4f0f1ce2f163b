import EdgeCache.Http

/-!
# Cache entries

`CacheEntry` is one stored response with the moment it was stored and the
lifetime the policy granted it.  A `Clock::time_point` is an integer number of
nanoseconds.  The age is truncated to whole seconds **toward zero**, as
`duration_cast` does, and then converted to `uint64_t`: the age of an entry
that is a second or more in the future is a number near `2^64`, so such an
entry is neither fresh nor serveable.
-/

namespace EdgeCache

/-- Nanoseconds in a second. -/
abbrev second : ℤ := 1000000000

/-- `CacheEntry`. -/
structure CacheEntry where
  status : Int32
  reason : ByteString
  headers : Headers
  body : ByteString
  storedAt : ℤ
  ttlSeconds : UInt64
  staleWhileRevalidateSeconds : UInt64
  etag : ByteString
  deriving DecidableEq

namespace CacheEntry

/-- The number of bytes `sizeBytes` accounts for, before it is cut to `size_t`. -/
def size (e : CacheEntry) : ℕ :=
  e.body.length + e.reason.length + e.etag.length + 64 +
    (e.headers.entries.map fun kv => kv.1.length + kv.2.length + 8).sum

/-- `CacheEntry::sizeBytes`. -/
def sizeBytes (e : CacheEntry) : UInt64 := UInt64.ofNat e.size

/-- The age in whole seconds, as the comparisons read it: `duration_cast` to
seconds, then `static_cast<uint64_t>`. -/
def age (e : CacheEntry) (now : ℤ) : UInt64 :=
  UInt64.ofInt ((now - e.storedAt).tdiv second)

/-- `CacheEntry::isFresh`. -/
def isFresh (e : CacheEntry) (now : ℤ) : Bool := e.age now < e.ttlSeconds

/-- `CacheEntry::isServeableStale`; the sum is taken modulo `2^64`. -/
def isServeableStale (e : CacheEntry) (now : ℤ) : Bool :=
  e.age now < e.ttlSeconds + e.staleWhileRevalidateSeconds

/-- `CacheEntry::toResponse`. -/
def toResponse (e : CacheEntry) : HttpResponse :=
  { HttpResponse.default with
    status := e.status
    reason := e.reason
    headers := e.headers
    body := e.body }

@[simp] theorem toResponse_status (e : CacheEntry) : e.toResponse.status = e.status := rfl

@[simp] theorem toResponse_body (e : CacheEntry) : e.toResponse.body = e.body := rfl

/-- **A fresh entry is younger than its lifetime**, provided the clock readings
are less than `2^63` seconds apart, as `int64_t` nanoseconds always are. -/
theorem lt_of_isFresh {e : CacheEntry} {now : ℤ}
    (near : now - e.storedAt < 2 ^ 63 * second) (fresh : e.isFresh now = true) :
    now < e.storedAt + e.ttlSeconds.toNat * second := by
  by_contra late
  simp only [second] at near late
  have whole : (now - e.storedAt).tdiv second = (now - e.storedAt) / 1000000000 :=
    Int.tdiv_eq_ediv_of_nonneg (by omega)
  have young : (e.age now).toNat < e.ttlSeconds.toNat := by
    simpa [isFresh, UInt64.lt_iff_toNat_lt] using fresh
  rw [age, whole, UInt64.ofInt, UInt64.toNat_ofNat'] at young
  omega

/-- **An entry younger than its lifetime is fresh**, once it has been stored. -/
theorem isFresh_of_lt {e : CacheEntry} {now : ℤ} (stored : e.storedAt ≤ now)
    (young : now < e.storedAt + e.ttlSeconds.toNat * second) : e.isFresh now = true := by
  simp only [second] at young
  have whole : (now - e.storedAt).tdiv second = (now - e.storedAt) / 1000000000 :=
    Int.tdiv_eq_ediv_of_nonneg (by omega)
  have bound := e.ttlSeconds.toNat_lt
  rw [isFresh, decide_eq_true_eq, UInt64.lt_iff_toNat_lt, age, whole, UInt64.ofInt,
    UInt64.toNat_ofNat']
  omega

end CacheEntry

end EdgeCache
