import EdgeCache.CacheEntry
import EdgeCache.Lib.Scan

/-!
# The L2 tier

Entries travel through Redis as text: five numbers on lines of their own, then
length-prefixed strings.  The blob carries the wall-clock milliseconds at which
it was written; a reader subtracts the elapsed time from the lifetime and starts
a new entry with what remains.

* `deserialize_serialize` — reading back what was written yields the same
  entry, the time of writing and the granted lifetime.
* `deadline_of_decode` — the entry a reader gets expires less than a second
  after the one that was written.
* `remaining_of_decode` — what is left of a lifetime, to the millisecond.

The cursor is a `size_t`: `p + len` wraps, and the model keeps that.  Redis
refuses a string value above 512 MiB, so no blob that long is ever stored.
-/

namespace EdgeCache

open Scan

namespace RedisL2Cache

/-- A field on a line of its own. -/
def line (text : ByteString) : ByteString := text ++ [LF]

/-- `writeStr`. -/
def writeStr (s : ByteString) : ByteString := line (toString s.length) ++ line s

/-- `RedisL2Cache::serialize` at the wall-clock reading `nowWallMs`. -/
def serialize (e : CacheEntry) (nowWallMs : UInt64) : ByteString :=
  line (bytes "EC2") ++ line (intToString e.status.toInt) ++ line (toString e.ttlSeconds.toNat) ++
    line (toString e.staleWhileRevalidateSeconds.toNat) ++ line (toString nowWallMs.toNat) ++
    writeStr e.reason ++ writeStr e.etag ++ line (toString e.headers.entries.length) ++
    (e.headers.entries.map fun kv => writeStr kv.1 ++ writeStr kv.2).flatten ++ writeStr e.body

/-- `readLine`. -/
def readLine (blob : ByteString) (p : ℕ) : Option (ByteString × ℕ) :=
  (find (blob.drop p) [LF]).map fun nl => ((blob.drop p).take nl, p + nl + 1)

/-- `readU`. -/
def readU (blob : ByteString) (p : ℕ) : Option (UInt64 × ℕ) := do
  let (l, p) ← readLine blob p
  let v ← stoull l
  return (v, p)

/-- `readStr`; the sums are taken modulo `2^64`. -/
def readStr (blob : ByteString) (p : ℕ) : Option (ByteString × ℕ) := do
  let (len, p) ← readU blob p
  let stop := (p + len.toNat) % 2 ^ 64
  if blob.length < stop then none
  else if blob[stop]? ≠ some LF then none
  else return ((blob.drop p).take len.toNat, stop + 1)

/-- The header loop of `deserialize`. -/
def readHeaders (blob : ByteString) : ℕ → Headers → ℕ → Option (Headers × ℕ)
  | 0, headers, p => some (headers, p)
  | n + 1, headers, p => do
      let (k, p) ← readStr blob p
      let (v, p) ← readStr blob p
      readHeaders blob n (headers.insert k v) p

/-- `RedisL2Cache::deserialize`: the entry, the time it was written and the
lifetime it was written with. -/
def deserialize (blob : ByteString) : Option (CacheEntry × UInt64 × UInt64) := do
  let (magic, p) ← readLine blob 0
  if magic ≠ bytes "EC2" then none
  let (status, p) ← readU blob p
  let (ttlSeconds, p) ← readU blob p
  let (swr, p) ← readU blob p
  let (storedAtWallMs, p) ← readU blob p
  let (reason, p) ← readStr blob p
  let (etag, p) ← readStr blob p
  let (nHeaders, p) ← readU blob p
  let (headers, p) ← readHeaders blob nHeaders.toNat Headers.empty p
  let (body, _) ← readStr blob p
  return ({
    status := status.toUInt32.toInt32
    reason := reason
    headers := headers
    body := body
    storedAt := 0
    ttlSeconds := 0
    staleWhileRevalidateSeconds := swr
    etag := etag }, storedAtWallMs, ttlSeconds)

/-- What `RedisL2Cache::get` makes of the blob Redis answers, at the readings
`wallMs` and `now` of the two clocks. -/
def decode (blob : ByteString) (wallMs : UInt64) (now : ℤ) : Option CacheEntry := do
  let (e, storedAtWallMs, ttl) ← deserialize blob
  let elapsedMs := if storedAtWallMs < wallMs then wallMs - storedAtWallMs else 0
  if ttl * 1000 ≤ elapsedMs then none
  else
    let remaining := ttl - elapsedMs / 1000
    return { e with storedAt := now, ttlSeconds := if remaining = 0 then 1 else remaining }

/-- Whatever is read counts as stored at the time of the read. -/
theorem storedAt_of_decode {blob : ByteString} {wallMs : UInt64} {now : ℤ} {e : CacheEntry}
    (got : decode blob wallMs now = some e) : e.storedAt = now := by
  unfold decode at got
  obtain ⟨⟨e₀, written, ttl⟩, -, rest⟩ := Option.bind_eq_some_iff.mp got
  simp only [Option.ite_none_left_eq_some, Option.pure_def, Option.some.injEq] at rest
  rw [← rest.2]

/-- `nowWallMs()` at a clock that counts nanoseconds. -/
def nowWallMs (clock : ℕ) : UInt64 := UInt64.ofNat (clock / 1000000)

/-- The longest string value Redis stores. -/
def maxValue : ℕ := 536870912

/-- What `RedisL2Cache::put` leaves in Redis under the key, where the command
gets through: nothing for a zero lifetime or a value Redis refuses. -/
def encode (e : CacheEntry) (ttlSeconds : UInt64) (nowWallMs : UInt64) : Option ByteString :=
  let blob := serialize e nowWallMs
  if ttlSeconds = 0 ∨ maxValue < blob.length then none else some blob

/-! ## Reading back what was written -/

/-- The cursor `p` stands in front of the text `s`, which ends the blob. -/
def At (blob : ByteString) (p : ℕ) (s : ByteString) : Prop :=
  p ≤ blob.length ∧ blob.drop p = s

section RoundTrip

variable {blob rest : ByteString} {p : ℕ}

theorem At.length {s : ByteString} (here : At blob p s) : p + s.length = blob.length := by
  rw [← here.2, List.length_drop]
  have := here.1
  omega

/-- Moving the cursor over the text in front of it. -/
theorem At.advance {front : ByteString} (here : At blob p (front ++ rest)) :
    At blob (p + front.length) rest := by
  have total := here.length
  rw [List.length_append] at total
  exact ⟨by omega, by rw [← List.drop_drop, here.2, List.drop_left]⟩

theorem readLine_at {text : ByteString} (here : At blob p (line text ++ rest))
    (plain : LF ∉ text) :
    ∃ p', readLine blob p = some (text, p') ∧ At blob p' rest := by
  have found : find (blob.drop p) [LF] = some text.length := by
    rw [here.2, line, List.append_assoc, List.singleton_append]
    exact find_singleton_append plain rest
  refine ⟨p + (line text).length, ?_, here.advance⟩
  rw [readLine, found, here.2, line, List.append_assoc, Option.map_some, List.take_left,
    List.length_append, List.length_singleton, Nat.add_assoc]

theorem readU_at {n : ℤ} (here : At blob p (line (intToString n) ++ rest))
    (fits : n.natAbs < 2 ^ 64) :
    ∃ p', readU blob p = some (UInt64.ofInt n, p') ∧ At blob p' rest := by
  obtain ⟨p', read, after⟩ := readLine_at here (notMem_intToString (by decide) (by decide))
  exact ⟨p', by simp [readU, read, stoull_intToString fits], after⟩

theorem readU_at_nat {n : ℕ} (here : At blob p (line (toString n) ++ rest)) (fits : n < 2 ^ 64) :
    ∃ p', readU blob p = some (UInt64.ofNat n, p') ∧ At blob p' rest := by
  rw [← intToString_natCast] at here
  obtain ⟨p', read, after⟩ := readU_at here fits
  exact ⟨p', by rwa [ofInt_natCast] at read, after⟩

theorem readU_at_word {v : UInt64} (here : At blob p (line (toString v.toNat) ++ rest)) :
    ∃ p', readU blob p = some (v, p') ∧ At blob p' rest := by
  obtain ⟨p', read, after⟩ := readU_at_nat here v.toNat_lt
  exact ⟨p', by rwa [UInt64.ofNat_toNat] at read, after⟩

/-- A string that was written is read back, if the blob is no longer than a
string can be. -/
theorem readStr_at {s : ByteString} (here : At blob p (writeStr s ++ rest))
    (size : blob.length < 2 ^ 64) :
    ∃ p', readStr blob p = some (s, p') ∧ At blob p' rest := by
  have fits : s.length < 2 ^ 64 := by
    have total := here.length
    simp only [writeStr, line, List.length_append] at total
    omega
  rw [writeStr, List.append_assoc] at here
  obtain ⟨q, read, body⟩ := readU_at_nat here fits
  have total := body.length
  simp only [line, List.length_append, List.length_singleton] at total
  have value : (UInt64.ofNat s.length).toNat = s.length := UInt64.toNat_ofNat_of_lt' fits
  have stop : (q + s.length) % 18446744073709551616 = q + s.length := Nat.mod_eq_of_lt (by omega)
  have text : blob.drop q = s ++ LF :: rest := by simpa [line] using body.2
  have ends : blob[q + s.length]? = some LF := by
    rw [← List.getElem?_drop, text, List.getElem?_append_right (le_refl _)]
    simp
  refine ⟨q + (line s).length, ?_, body.advance⟩
  simp [readStr, read, value, stop, ends, text, line, show ¬ blob.length < q + s.length by omega,
    Nat.add_assoc]

theorem readHeaders_at {l : List (ByteString × ByteString)} (headers : Headers)
    (here : At blob p ((l.map fun kv => writeStr kv.1 ++ writeStr kv.2).flatten ++ rest))
    (size : blob.length < 2 ^ 64) :
    ∃ p', readHeaders blob l.length headers p =
        some (l.foldl (fun h e => h.insert e.1 e.2) headers, p') ∧ At blob p' rest := by
  induction l generalizing headers p with
  | nil => exact ⟨p, rfl, here⟩
  | cons kv l ih =>
      simp only [List.map_cons, List.flatten_cons, List.append_assoc] at here
      obtain ⟨q, name, here⟩ := readStr_at here size
      obtain ⟨r, value, here⟩ := readStr_at here size
      obtain ⟨p', others, after⟩ := ih (headers.insert kv.1 kv.2) here
      exact ⟨p', by simp [readHeaders, name, value, others], after⟩

/-- Every header takes up room in the blob. -/
theorem length_le_length_flatten (l : List (ByteString × ByteString)) :
    l.length ≤ (l.map fun kv => writeStr kv.1 ++ writeStr kv.2).flatten.length := by
  induction l with
  | nil => exact Nat.zero_le _
  | cons kv l ih =>
      simp only [List.map_cons, List.flatten_cons, List.length_append, List.length_cons, writeStr,
        line] at ih ⊢
      omega

end RoundTrip

/-- A status survives the cast of the number it was read as. -/
theorem status_cast (status : Int32) : (UInt64.ofInt status.toInt).toUInt32.toInt32 = status := by
  refine Int32.toInt_inj.mp ?_
  have low := status.le_toInt
  have high := status.toInt_lt
  rw [← Int32.toInt_toBitVec, UInt32.toBitVec_toInt32, BitVec.toInt_eq_toNat_bmod,
    UInt32.toNat_toBitVec, UInt64.toNat_toUInt32, UInt64.ofInt, UInt64.toNat_ofNat']
  rw [Int.bmod_def]
  omega

/-- **Reading back what was written** yields the same entry, the time of
writing and the lifetime. -/
theorem deserialize_serialize (e : CacheEntry) (nowWallMs : UInt64)
    (size : (serialize e nowWallMs).length < 2 ^ 64) :
    deserialize (serialize e nowWallMs) =
      some ({ e with storedAt := 0, ttlSeconds := 0 }, nowWallMs, e.ttlSeconds) := by
  set blob := serialize e nowWallMs with written
  have here : At blob 0 blob := ⟨Nat.zero_le _, rfl⟩
  nth_rewrite 2 [written] at here
  simp only [serialize, List.append_assoc] at here
  have status : e.status.toInt.natAbs < 2 ^ 64 := by
    have low := e.status.le_toInt
    have high := e.status.toInt_lt
    omega
  obtain ⟨_, magic, here⟩ := readLine_at here (by decide)
  obtain ⟨_, statusRead, here⟩ := readU_at here status
  obtain ⟨_, ttl, here⟩ := readU_at_word here
  obtain ⟨_, swr, here⟩ := readU_at_word here
  obtain ⟨_, wall, here⟩ := readU_at_word here
  obtain ⟨_, reason, here⟩ := readStr_at here size
  obtain ⟨_, etag, here⟩ := readStr_at here size
  have count : e.headers.entries.length < 2 ^ 64 := by
    have total := here.length
    have each := length_le_length_flatten e.headers.entries
    simp only [List.length_append] at total
    omega
  obtain ⟨_, nHeaders, here⟩ := readU_at_nat here count
  obtain ⟨_, headers, here⟩ := readHeaders_at Headers.empty here size
  rw [← List.append_nil (writeStr e.body)] at here
  obtain ⟨_, body, -⟩ := readStr_at here size
  have rebuilt : (e.headers.entries.foldl (fun h e => h.insert e.1 e.2) Headers.empty) = e.headers :=
    Headers.ofList_entries e.headers
  rw [rebuilt] at headers
  have number : (UInt64.ofNat e.headers.entries.length).toNat = e.headers.entries.length :=
    UInt64.toNat_ofNat_of_lt' count
  simp [deserialize, magic, statusRead, ttl, swr, wall, reason, etag, nHeaders, number, headers,
    body, status_cast]

/-- **The codec keeps every field** of an entry whose blob is a `std::string`, that is,
whose length is a `size_t`: whatever the status and the bytes, they are read back. -/
theorem serialize_keeps_fields (e : CacheEntry) (nowWallMs : UInt64)
    (size : (serialize e nowWallMs).length < 2 ^ 64) :
    ∃ out storedAtWallMs ttlSeconds,
      deserialize (serialize e nowWallMs) = some (out, storedAtWallMs, ttlSeconds) ∧
      out.status = e.status ∧ out.reason = e.reason ∧ out.etag = e.etag ∧
      out.staleWhileRevalidateSeconds = e.staleWhileRevalidateSeconds ∧
      out.headers = e.headers ∧ out.body = e.body ∧
      ttlSeconds = e.ttlSeconds ∧ storedAtWallMs = nowWallMs :=
  ⟨_, _, _, deserialize_serialize e nowWallMs size, rfl, rfl, rfl, rfl, rfl, rfl, rfl, rfl⟩

/-- An entry with a negative status, a newline in its reason and digits in its body. -/
def oddEntry : CacheEntry where
  status := -7
  reason := bytes "a\nb"
  headers := (Headers.empty.insert (bytes "ETag") (bytes "1")).insert (bytes "Vary") []
  body := bytes "3\n12"
  storedAt := 5
  ttlSeconds := 18446744073709551615
  staleWhileRevalidateSeconds := 2
  etag := []

theorem serialize_keeps_fields_oddEntry :
    ∃ out storedAtWallMs ttlSeconds,
      deserialize (serialize oddEntry 99) = some (out, storedAtWallMs, ttlSeconds) ∧
      out.status = -7 ∧ out.body = bytes "3\n12" ∧ storedAtWallMs = 99 := by
  obtain ⟨out, wall, ttl, read, status, -, -, -, -, body, -, written⟩ :=
    serialize_keeps_fields oddEntry 99 (by decide +kernel)
  exact ⟨out, wall, ttl, read, status, body, written⟩

/-! ## What is left of a lifetime -/

/-- The milliseconds since the blob was written, as `get` computes them. -/
def elapsedMs (written wallMs : UInt64) : UInt64 :=
  if written < wallMs then wallMs - written else 0

/-- The lifetime `get` gives to an entry of the lifetime `ttl`. -/
def remaining (ttl elapsed : UInt64) : UInt64 :=
  if ttl - elapsed / 1000 = 0 then 1 else ttl - elapsed / 1000

/-- `get` on a blob that was written. -/
theorem decode_serialize (e : CacheEntry) (written wallMs : UInt64) (now : ℤ)
    (size : (serialize e written).length < 2 ^ 64) :
    decode (serialize e written) wallMs now =
      if e.ttlSeconds * 1000 ≤ elapsedMs written wallMs then none
      else some { e with
        storedAt := now, ttlSeconds := remaining e.ttlSeconds (elapsedMs written wallMs) } := by
  rw [decode, deserialize_serialize e written size]
  rfl

/-- A later reading is later by what has elapsed. -/
theorem toNat_elapsedMs (written wallMs : UInt64) :
    (elapsedMs written wallMs).toNat = wallMs.toNat - written.toNat := by
  unfold elapsedMs
  split
  · rename_i less
    exact UInt64.toNat_sub_of_le _ _ (UInt64.le_of_lt less)
  · rename_i notLess
    rw [UInt64.not_lt, UInt64.le_iff_toNat_le] at notLess
    exact (Nat.sub_eq_zero_of_le notLess).symm

/-- The product in the test for expiry may wrap, and is then too small. -/
theorem lt_of_not_expired {ttl elapsed : UInt64} (young : elapsed < ttl * 1000) :
    elapsed.toNat < ttl.toNat * 1000 := by
  have wrapped := UInt64.lt_iff_toNat_lt.mp young
  rw [UInt64.toNat_mul] at wrapped
  exact wrapped.trans_le (Nat.mod_le _ _)

/-- **What is left** of a lifetime that has not passed: the subtraction does not wrap, and some of
it is left. -/
theorem toNat_remaining {ttl elapsed : UInt64} (young : elapsed.toNat < ttl.toNat * 1000) :
    (remaining ttl elapsed).toNat = ttl.toNat - elapsed.toNat / 1000 := by
  have thousand : (1000 : UInt64).toNat = 1000 := rfl
  have fits : elapsed / 1000 ≤ ttl := by
    rw [UInt64.le_iff_toNat_le, UInt64.toNat_div, thousand]
    omega
  have left : (ttl - elapsed / 1000).toNat = ttl.toNat - elapsed.toNat / 1000 := by
    rw [UInt64.toNat_sub_of_le _ _ fits, UInt64.toNat_div, thousand]
  have alive : ttl - elapsed / 1000 ≠ 0 := fun zero => by
    rw [zero, UInt64.toNat_zero] at left
    omega
  rw [remaining, if_neg alive, left]

/-- **The L2 round trip of an entry**: what is read back is the entry that was
written, with a new moment of storing and what is left of its lifetime. -/
theorem decode_of_encode {e e' : CacheEntry} {ttlSeconds written wallMs : UInt64} {now : ℤ}
    {blob : ByteString} (put : encode e ttlSeconds written = some blob)
    (got : decode blob wallMs now = some e') :
    elapsedMs written wallMs < e.ttlSeconds * 1000 ∧
      e' = { e with
        storedAt := now, ttlSeconds := remaining e.ttlSeconds (elapsedMs written wallMs) } := by
  simp only [encode] at put
  split at put
  · cases put
  · rename_i accepted
    obtain rfl := Option.some.inj put
    rw [not_or, not_lt] at accepted
    have size : (serialize e written).length < 2 ^ 64 :=
      accepted.2.trans_lt (by decide)
    rw [decode_serialize e written wallMs now size] at got
    split at got
    · cases got
    · rename_i alive
      exact ⟨UInt64.not_le.mp alive, (Option.some.inj got).symm⟩

/-- **Promotion keeps the deadline.**  An entry written at the clock `written`
and read at the clock `now` has a lifetime left, and that lifetime ends less than a
second after the lifetime of what was written. -/
theorem deadline_of_decode {e e' : CacheEntry} {ttlSeconds : UInt64} {written now : ℕ}
    {blob : ByteString} (fits : written < 2 ^ 63) (bounded : now < 2 ^ 63)
    (put : encode e ttlSeconds (nowWallMs written) = some blob)
    (got : decode blob (nowWallMs now) now = some e') :
    0 < e'.ttlSeconds.toNat ∧
      now + e'.ttlSeconds.toNat * 1000000000 <
        written + (e.ttlSeconds.toNat + 1) * 1000000000 := by
  obtain ⟨young, rfl⟩ := decode_of_encode put got
  have early := lt_of_not_expired young
  have left := toNat_remaining early
  have elapsed : (elapsedMs (nowWallMs written) (nowWallMs now)).toNat =
      now / 1000000 - written / 1000000 := by
    have before : (nowWallMs written).toNat = written / 1000000 :=
      UInt64.toNat_ofNat_of_lt' (by rw [UInt64.size]; omega)
    have after : (nowWallMs now).toNat = now / 1000000 :=
      UInt64.toNat_ofNat_of_lt' (by rw [UInt64.size]; omega)
    rw [toNat_elapsedMs, before, after]
  rw [elapsed] at early left
  rw [left]
  omega

/-- **The arithmetic of the lifetimes**, at a reading of the wall clock `elapsed` milliseconds after
the blob was written.  What `get` returns has not expired, nothing underflows, and what is left
ends less than a second late and never early; and what has not expired is returned, unless the
lifetime in milliseconds does not fit into 64 bits. -/
theorem remaining_of_decode (e : CacheEntry) (written wallMs : UInt64) (elapsed : ℕ) (now : ℤ)
    (later : wallMs.toNat = written.toNat + elapsed)
    (size : (serialize e written).length < 2 ^ 64) :
    (∀ e', decode (serialize e written) wallMs now = some e' →
      elapsed < 1000 * e.ttlSeconds.toNat ∧
        elapsed / 1000 ≤ e.ttlSeconds.toNat ∧
        e'.ttlSeconds.toNat = e.ttlSeconds.toNat - elapsed / 1000 ∧
        1 ≤ e'.ttlSeconds.toNat ∧
        1000 * e'.ttlSeconds.toNat + elapsed < 1000 * e.ttlSeconds.toNat + 1000) ∧
    (1000 * e.ttlSeconds.toNat < 2 ^ 64 → elapsed < 1000 * e.ttlSeconds.toNat →
      ∃ e', decode (serialize e written) wallMs now = some e' ∧
        1000 * e.ttlSeconds.toNat ≤ 1000 * e'.ttlSeconds.toNat + elapsed) := by
  have passed : (elapsedMs written wallMs).toNat = elapsed := by
    rw [toNat_elapsedMs]
    omega
  rw [decode_serialize e written wallMs now size]
  constructor
  · intro e' got
    split at got
    · cases got
    · rename_i alive
      obtain rfl := (Option.some.inj got).symm
      have early := lt_of_not_expired (UInt64.not_le.mp alive)
      have left := toNat_remaining early
      rw [passed] at early left
      refine ⟨by omega, by omega, left, ?_, ?_⟩
      · rw [left]
        omega
      · rw [left]
        omega
  · intro fits early
    have product : (e.ttlSeconds * 1000).toNat = e.ttlSeconds.toNat * 1000 := by
      rw [UInt64.toNat_mul]
      exact Nat.mod_eq_of_lt (by rw [Nat.mul_comm]; exact fits)
    have alive : ¬ e.ttlSeconds * 1000 ≤ elapsedMs written wallMs := by
      rw [UInt64.le_iff_toNat_le, product, passed]
      omega
    have left : (remaining e.ttlSeconds (elapsedMs written wallMs)).toNat = _ :=
      toNat_remaining (by rw [passed]; omega)
    rw [passed] at left
    refine ⟨_, if_neg alive, ?_⟩
    rw [left]
    omega

/-- The last millisecond of a lifetime of a minute leaves one second. -/
theorem remaining_of_decode_lastMs :
    ∃ e', decode (serialize { oddEntry with ttlSeconds := 60 } 99) 60098 0 = some e' ∧
      1 ≤ e'.ttlSeconds.toNat ∧ 1000 * e'.ttlSeconds.toNat + 59999 < 61000 := by
  have both := remaining_of_decode { oddEntry with ttlSeconds := 60 } 99 60098 59999 0
    (by decide) (by decide +kernel)
  obtain ⟨e', got, -⟩ := both.2 (by decide) (by decide)
  obtain ⟨-, -, -, alive, soon⟩ := both.1 e' got
  exact ⟨e', got, alive, soon⟩

end RedisL2Cache

end EdgeCache
