import EdgeCache.Lib.Transition
import EdgeCache.RedisL2Cache

/-!
# Blobs from elsewhere

What `deserialize` does with any bytes at all, one field after the other.  `Reading` is where it
stands, and `readField` reads the next field.

The bounds check of a string adds its declared length to the cursor modulo `2^64`.  A length near
`2^64` takes the sum below the cursor, so the check passes and the cursor moves back: the string is
read as far as the blob goes, and what follows it is read again.  `Wraps` says that a field does
this.  Where no field does, the cursor moves forward and stays in the blob, every string fits, the
header loop ends in time, and the fields stand one after the other (`safe_iff`).
-/

namespace EdgeCache

open Scan Transition

namespace RedisL2Cache

/-! ## One field at a time -/

/-- The field to read next.  Of the header loop, `i` of `n` rounds are done. -/
inductive Stage
  | magic
  | status
  | ttlSeconds
  | swr
  | storedAtWallMs
  | reason
  | etag
  | nHeaders
  | name (i n : ℕ)
  | value (i n : ℕ)
  | body
  | done
  deriving DecidableEq

/-- The fields that `readStr` reads. -/
def Stage.isText : Stage → Bool
  | .reason | .etag | .name _ _ | .value _ _ | .body => true
  | _ => false

/-- The head of the header loop. -/
def Stage.round (i n : ℕ) : Stage := if i < n then .name i n else .body

/-- `deserialize` between two fields: the next one, and the cursor. -/
structure Reading where
  stage : Stage
  p : ℕ
  deriving DecidableEq

/-- Read the next field; `none` where `deserialize` returns. -/
def readField (blob : ByteString) (r : Reading) : Option Reading :=
  match r.stage with
  | .magic => (readLine blob r.p).bind fun (magic, p) =>
      if magic ≠ bytes "EC2" then none else some ⟨.status, p⟩
  | .status => (readU blob r.p).map fun (_, p) => ⟨.ttlSeconds, p⟩
  | .ttlSeconds => (readU blob r.p).map fun (_, p) => ⟨.swr, p⟩
  | .swr => (readU blob r.p).map fun (_, p) => ⟨.storedAtWallMs, p⟩
  | .storedAtWallMs => (readU blob r.p).map fun (_, p) => ⟨.reason, p⟩
  | .reason => (readStr blob r.p).map fun (_, p) => ⟨.etag, p⟩
  | .etag => (readStr blob r.p).map fun (_, p) => ⟨.nHeaders, p⟩
  | .nHeaders => (readU blob r.p).map fun (n, p) => ⟨.round 0 n.toNat, p⟩
  | .name i n => (readStr blob r.p).map fun (_, p) => ⟨.value i n, p⟩
  | .value i n => (readStr blob r.p).map fun (_, p) => ⟨.round (i + 1) n, p⟩
  | .body => (readStr blob r.p).map fun (_, p) => ⟨.done, p⟩
  | .done => none

/-- The reading of a blob as a transition system. -/
def next (blob : ByteString) (r : Reading) (_ : Unit) : Option Reading := readField blob r

/-- Where `deserialize` gets on a blob. -/
def Reached (blob : ByteString) (r : Reading) : Prop :=
  Steps (next blob) (fun _ _ => True) ⟨.magic, 0⟩ r

/-- **A field whose length wraps**: the cursor behind its length line and the declared length
add up to `2^64` or more, and there is a newline where the sum is taken to be. -/
def Wraps (blob : ByteString) (p : ℕ) : Prop :=
  ∃ len q, readU blob p = some (len, q) ∧ 2 ^ 64 ≤ q + len.toNat ∧
    blob[(q + len.toNat) % 2 ^ 64]? = some LF

variable {blob : ByteString} {r r' : Reading} {p p' : ℕ}

theorem Reached.start : Reached blob ⟨.magic, 0⟩ := Steps.refl _

theorem Reached.step (reached : Reached blob r) (read : readField blob r = some r') :
    Reached blob r' := Steps.trans reached (Steps.single (a := ()) trivial read)

/-! ## What is read -/

/-- A line stands at the cursor, and the cursor moves behind it. -/
theorem readLine_eq_some {text : ByteString} (read : readLine blob p = some (text, p')) :
    blob.drop p = line text ++ blob.drop p' ∧ p < p' ∧ p' ≤ blob.length := by
  obtain ⟨nl, found, same⟩ := Option.map_eq_some_iff.mp read
  cases same
  have inside := find_add_length_le found
  rw [List.length_drop, List.length_singleton] at inside
  obtain ⟨-, ⟨back, rest⟩, -⟩ := find_eq_some_iff.mp found
  rw [List.drop_drop] at rest
  have behind : blob.drop (p + nl + 1) = back := by
    rw [← List.drop_drop, ← rest]
    rfl
  refine ⟨?_, by omega, by omega⟩
  rw [behind, line, List.append_assoc, rest, ← List.drop_drop, List.take_append_drop]

/-- The text of a number on a line of its own. -/
def Numeral (v : UInt64) (text : ByteString) : Prop :=
  ∃ digits, stoull digits = some v ∧ text = line digits

/-- The text of a string: its length on a line, its bytes, and a newline. -/
def Spelled (s text : ByteString) : Prop :=
  ∃ length, Numeral (UInt64.ofNat s.length) length ∧ s.length < 2 ^ 64 ∧ text = length ++ line s

/-- The texts of names and values, one after the other. -/
inductive SpelledPairs : List (ByteString × ByteString) → ByteString → Prop
  | nil : SpelledPairs [] []
  | cons {k v kText vText rest : ByteString} {l : List (ByteString × ByteString)}
      (name : Spelled k kText) (value : Spelled v vText) (others : SpelledPairs l rest) :
      SpelledPairs ((k, v) :: l) (kText ++ (vText ++ rest))

theorem readU_eq_some {v : UInt64} (read : readU blob p = some (v, p')) :
    ∃ text, Numeral v text ∧ blob.drop p = text ++ blob.drop p' ∧ p < p' ∧ p' ≤ blob.length := by
  simp only [readU, Option.bind_eq_bind, Option.bind_eq_some_iff, Option.pure_def,
    Option.some.injEq, Prod.mk.injEq, Prod.exists] at read
  obtain ⟨digits, q, onLine, v', number, rfl, rfl⟩ := read
  obtain ⟨here, forward, inside⟩ := readLine_eq_some onLine
  exact ⟨line digits, ⟨digits, number, rfl⟩, here, forward, inside⟩

/-- Everything `readStr` does. -/
theorem readStr_eq_some_iff {s : ByteString} : readStr blob p = some (s, p') ↔
    ∃ len q, readU blob p = some (len, q) ∧ (q + len.toNat) % 2 ^ 64 ≤ blob.length ∧
      blob[(q + len.toNat) % 2 ^ 64]? = some LF ∧ s = (blob.drop q).take len.toNat ∧
      p' = (q + len.toNat) % 2 ^ 64 + 1 := by
  simp only [readStr, Option.bind_eq_bind, Option.bind_eq_some_iff, Prod.exists]
  refine exists_congr fun len => exists_congr fun q => and_congr_right fun _ => ?_
  split
  · rename_i outside
    exact iff_of_false (by simp) fun accepted => absurd accepted.1 (by omega)
  · rename_i inside
    split
    · rename_i other
      exact iff_of_false (by simp) fun accepted => other accepted.2.1
    · rename_i ends
      simp only [not_not] at ends
      simp only [Option.pure_def, Option.some.injEq, Prod.mk.injEq]
      constructor
      · rintro ⟨rfl, rfl⟩
        exact ⟨by omega, ends, rfl, rfl⟩
      · rintro ⟨-, -, rfl, rfl⟩
        exact ⟨rfl, rfl⟩

/-- **A string whose length does not wrap** stands at the cursor as a whole, and the cursor moves
behind it. -/
theorem readStr_of_not_wraps {s : ByteString} (read : readStr blob p = some (s, p'))
    (straight : ¬ Wraps blob p) :
    (∃ text, Spelled s text ∧ blob.drop p = text ++ blob.drop p') ∧ p < p' ∧ p' ≤ blob.length ∧
      ∀ len q, readU blob p = some (len, q) → q + len.toNat ≤ blob.length := by
  obtain ⟨len, q, declared, -, ends, taken, rfl⟩ := readStr_eq_some_iff.mp read
  obtain ⟨text, numeral, here, forward, -⟩ := readU_eq_some declared
  have small : q + len.toNat < 2 ^ 64 := by
    by_contra large
    exact straight ⟨len, q, declared, by omega, ends⟩
  rw [Nat.mod_eq_of_lt small] at ends
  obtain ⟨inside, newline⟩ := List.getElem?_eq_some_iff.mp ends
  rw [Nat.mod_eq_of_lt small]
  have whole : blob.drop q = line s ++ blob.drop (q + len.toNat + 1) := by
    have behind := List.drop_eq_getElem_cons inside
    rw [newline] at behind
    rw [line, List.append_assoc, List.singleton_append, ← behind, taken, ← List.drop_drop,
      List.take_append_drop]
  have length : s.length = len.toNat := by
    rw [taken, List.length_take, List.length_drop]
    omega
  refine ⟨⟨text ++ line s, ⟨text, ?_, length ▸ len.toNat_lt, rfl⟩, ?_⟩, by omega, by omega, ?_⟩
  · rw [length, UInt64.ofNat_toNat]
    exact numeral
  · rw [here, whole, List.append_assoc]
  · intro len' q' declared'
    rw [declared, Option.some.injEq, Prod.mk.injEq] at declared'
    obtain ⟨rfl, rfl⟩ := declared'
    omega

/-! ## One step -/

/-- Every field is read by one of the three readers. -/
theorem readField_reads (read : readField blob r = some r') :
    (r.stage.isText = true ∧ ∃ s, readStr blob r.p = some (s, r'.p)) ∨
    (r.stage.isText = false ∧
      ((∃ v, readU blob r.p = some (v, r'.p)) ∨ ∃ l, readLine blob r.p = some (l, r'.p))) := by
  obtain ⟨stage, p⟩ := r
  have text : ∀ next, (readStr blob p).map (fun s => (⟨next, s.2⟩ : Reading)) = some r' →
      ∃ s, readStr blob p = some (s, r'.p) := by
    intro next read
    obtain ⟨⟨s, q⟩, here, rfl⟩ := Option.map_eq_some_iff.mp read
    exact ⟨s, here⟩
  have number : ∀ next : UInt64 → Stage,
      (readU blob p).map (fun v => (⟨next v.1, v.2⟩ : Reading)) = some r' →
      ∃ v, readU blob p = some (v, r'.p) := by
    intro next read
    obtain ⟨⟨v, q⟩, here, rfl⟩ := Option.map_eq_some_iff.mp read
    exact ⟨v, here⟩
  cases stage with
  | magic =>
      obtain ⟨⟨l, q⟩, here, accepted⟩ := Option.bind_eq_some_iff.mp read
      simp only at accepted
      split at accepted
      · cases accepted
      · cases accepted
        exact Or.inr ⟨rfl, Or.inr ⟨l, here⟩⟩
  | status => exact Or.inr ⟨rfl, Or.inl (number (fun _ => .ttlSeconds) read)⟩
  | ttlSeconds => exact Or.inr ⟨rfl, Or.inl (number (fun _ => .swr) read)⟩
  | swr => exact Or.inr ⟨rfl, Or.inl (number (fun _ => .storedAtWallMs) read)⟩
  | storedAtWallMs => exact Or.inr ⟨rfl, Or.inl (number (fun _ => .reason) read)⟩
  | nHeaders => exact Or.inr ⟨rfl, Or.inl (number (fun n => .round 0 n.toNat) read)⟩
  | reason => exact Or.inl ⟨rfl, text _ read⟩
  | etag => exact Or.inl ⟨rfl, text _ read⟩
  | name i n => exact Or.inl ⟨rfl, text _ read⟩
  | value i n => exact Or.inl ⟨rfl, text _ read⟩
  | body => exact Or.inl ⟨rfl, text _ read⟩
  | done => cases read

/-- The cursor stays in the blob, even where a length wraps. -/
theorem le_of_readField (read : readField blob r = some r') : r'.p ≤ blob.length := by
  rcases readField_reads read with ⟨-, s, here⟩ | ⟨-, ⟨v, here⟩ | ⟨l, here⟩⟩
  · obtain ⟨len, q, -, -, ends, -, moved⟩ := readStr_eq_some_iff.mp here
    have inside := (List.getElem?_eq_some_iff.mp ends).1
    omega
  · obtain ⟨-, -, -, -, inside⟩ := readU_eq_some here
    exact inside
  · exact (readLine_eq_some here).2.2

/-- **No string the blob makes `deserialize` read wraps.** -/
def Straight (blob : ByteString) : Prop :=
  ∀ r, Reached blob r → r.stage.isText = true → ¬ Wraps blob r.p

/-- The cursor moves forward. -/
theorem Straight.forward (straight : Straight blob) (reached : Reached blob r)
    (read : readField blob r = some r') : r.p < r'.p := by
  rcases readField_reads read with ⟨isText, s, here⟩ | ⟨-, ⟨v, here⟩ | ⟨l, here⟩⟩
  · exact (readStr_of_not_wraps here (straight r reached isText)).2.1
  · obtain ⟨-, -, -, forward, -⟩ := readU_eq_some here
    exact forward
  · exact (readLine_eq_some here).2.1

/-! ## The header loop -/

/-- The rounds begun so far do not exceed the cursor. -/
def Reading.Ahead (r : Reading) : Prop :=
  match r.stage with
  | .magic => True
  | .name i _ | .value i _ => i + 1 ≤ r.p
  | _ => 1 ≤ r.p

theorem ahead_round {i n : ℕ} (begun : i + 1 ≤ p) : Reading.Ahead ⟨.round i n, p⟩ := by
  unfold Stage.round
  split
  · exact begun
  · exact (Nat.le_add_left 1 i).trans begun

/-- **One field**: a round takes the cursor further. -/
theorem Reading.Ahead.step (ahead : r.Ahead) (forward : r.p < r'.p)
    (read : readField blob r = some r') : r'.Ahead := by
  obtain ⟨stage, p⟩ := r
  have positive : 1 ≤ r'.p := by omega
  cases stage with
  | magic =>
      obtain ⟨⟨l, q⟩, here, accepted⟩ := Option.bind_eq_some_iff.mp read
      simp only at accepted
      split at accepted
      · cases accepted
      · cases accepted
        exact positive
  | done => cases read
  | nHeaders =>
      obtain ⟨⟨v, q⟩, -, rfl⟩ := Option.map_eq_some_iff.mp read
      exact ahead_round positive
  | name i n =>
      obtain ⟨⟨s, q⟩, -, rfl⟩ := Option.map_eq_some_iff.mp read
      have begun : i + 1 ≤ p := ahead
      exact begun.trans forward.le
  | value i n =>
      obtain ⟨⟨s, q⟩, -, rfl⟩ := Option.map_eq_some_iff.mp read
      have begun : i + 1 ≤ p := ahead
      exact ahead_round (Nat.succ_le_of_lt (lt_of_le_of_lt begun forward))
  | _ =>
      obtain ⟨⟨s, q⟩, -, rfl⟩ := Option.map_eq_some_iff.mp read
      exact positive

/-- A declared number of headers does not matter: the blob ends first. -/
theorem Straight.ahead (straight : Straight blob) (reached : Reached blob r) : r.Ahead := by
  refine Steps.invariant_of (fun r' steps => show Reached blob r' from steps)
    (fun r _ r' _ read known _ ahead => ?_) reached trivial
  exact ahead.step (straight.forward known read) read

/-! ## What is accepted -/

/-- **The fields one after the other**: where the text of each stands, and what it spells. -/
structure Layout (blob : ByteString) (out : CacheEntry) (storedAtWallMs ttlSeconds : UInt64) where
  (status nHeaders : UInt64)
  (pairs : List (ByteString × ByteString))
  (statusText ttlText swrText wallText reasonText etagText countText pairsText bodyText
    rest : ByteString)
  status_eq : out.status = status.toUInt32.toInt32
  headers_eq : out.headers = pairs.foldl (fun h e => h.insert e.1 e.2) Headers.empty
  length_eq : pairs.length = nHeaders.toNat
  numerals : Numeral status statusText ∧ Numeral ttlSeconds ttlText ∧
    Numeral out.staleWhileRevalidateSeconds swrText ∧ Numeral storedAtWallMs wallText ∧
    Numeral nHeaders countText
  strings : Spelled out.reason reasonText ∧ Spelled out.etag etagText ∧
    SpelledPairs pairs pairsText ∧ Spelled out.body bodyText
  whole : blob = line (bytes "EC2") ++ (statusText ++ (ttlText ++ (swrText ++ (wallText ++
    (reasonText ++ (etagText ++ (countText ++ (pairsText ++ (bodyText ++ rest)))))))))

/-- What `deserialize` reads, where it succeeds. -/
theorem deserialize_eq_some {out : CacheEntry} {storedAtWallMs ttlSeconds : UInt64}
    (read : deserialize blob = some (out, storedAtWallMs, ttlSeconds)) :
    ∃ p₁ status p₂ p₃ p₄ p₅ p₆ p₇ n p₈ p₉ p₁₀,
      readLine blob 0 = some (bytes "EC2", p₁) ∧ readU blob p₁ = some (status, p₂) ∧
      readU blob p₂ = some (ttlSeconds, p₃) ∧
      readU blob p₃ = some (out.staleWhileRevalidateSeconds, p₄) ∧
      readU blob p₄ = some (storedAtWallMs, p₅) ∧ readStr blob p₅ = some (out.reason, p₆) ∧
      readStr blob p₆ = some (out.etag, p₇) ∧ readU blob p₇ = some (n, p₈) ∧
      readHeaders blob n.toNat Headers.empty p₈ = some (out.headers, p₉) ∧
      readStr blob p₉ = some (out.body, p₁₀) ∧ out.status = status.toUInt32.toInt32 := by
  unfold deserialize at read
  obtain ⟨⟨magic, p₁⟩, h₁, read⟩ := Option.bind_eq_some_iff.mp read
  dsimp only at read
  by_cases accepted : magic = bytes "EC2"
  swap
  · rw [if_pos accepted] at read
    cases read
  rw [if_neg (not_not.mpr accepted)] at read
  obtain ⟨⟨status, p₂⟩, h₂, read⟩ := Option.bind_eq_some_iff.mp read
  obtain ⟨⟨ttl, p₃⟩, h₃, read⟩ := Option.bind_eq_some_iff.mp read
  obtain ⟨⟨swr, p₄⟩, h₄, read⟩ := Option.bind_eq_some_iff.mp read
  obtain ⟨⟨wall, p₅⟩, h₅, read⟩ := Option.bind_eq_some_iff.mp read
  obtain ⟨⟨reason, p₆⟩, h₆, read⟩ := Option.bind_eq_some_iff.mp read
  obtain ⟨⟨etag, p₇⟩, h₇, read⟩ := Option.bind_eq_some_iff.mp read
  obtain ⟨⟨n, p₈⟩, h₈, read⟩ := Option.bind_eq_some_iff.mp read
  obtain ⟨⟨headers, p₉⟩, h₉, read⟩ := Option.bind_eq_some_iff.mp read
  obtain ⟨⟨body, p₁₀⟩, h₁₀, read⟩ := Option.bind_eq_some_iff.mp read
  cases read
  exact ⟨p₁, status, p₂, p₃, p₄, p₅, p₆, p₇, n, p₈, p₉, p₁₀, accepted ▸ h₁, h₂, h₃, h₄, h₅, h₆, h₇,
    h₈, h₉, h₁₀, rfl⟩

/-- **The header loop** gets to the body, and reads pairs one after the other. -/
theorem Reached.readHeaders {i k : ℕ} {headers headers' : Headers}
    (reached : Reached blob ⟨.round i (i + k), p⟩)
    (read : readHeaders blob k headers p = some (headers', p')) :
    Reached blob ⟨.body, p'⟩ ∧ (Straight blob → ∃ pairs text, pairs.length = k ∧
      SpelledPairs pairs text ∧ headers' = pairs.foldl (fun h e => h.insert e.1 e.2) headers ∧
      blob.drop p = text ++ blob.drop p') := by
  induction k generalizing i headers p with
  | zero =>
      cases read
      rw [Stage.round, if_neg (by omega)] at reached
      exact ⟨reached, fun _ => ⟨[], [], rfl, .nil, rfl, rfl⟩⟩
  | succ k ih =>
      simp only [RedisL2Cache.readHeaders, Option.bind_eq_bind, Option.bind_eq_some_iff,
        Prod.exists] at read
      obtain ⟨name, q, readName, value, q', readValue, others⟩ := read
      rw [Stage.round, if_pos (by omega)] at reached
      have atValue : Reached blob ⟨.value i (i + (k + 1)), q⟩ :=
        reached.step (by rw [readField, readName]; rfl)
      have next : Reached blob ⟨.round (i + 1) (i + 1 + k), q'⟩ :=
        atValue.step (by rw [readField, readValue, Nat.add_right_comm i 1 k]; rfl)
      obtain ⟨done, rest⟩ := ih next others
      refine ⟨done, fun straight => ?_⟩
      obtain ⟨⟨nameText, named, first⟩, -⟩ :=
        readStr_of_not_wraps readName (straight _ reached rfl)
      obtain ⟨⟨valueText, valued, second⟩, -⟩ :=
        readStr_of_not_wraps readValue (straight _ atValue rfl)
      obtain ⟨pairs, text, rfl, spelled, built, rest⟩ := rest straight
      refine ⟨(name, value) :: pairs, _, rfl, .cons named valued spelled, built, ?_⟩
      simp only [first, second, rest, List.append_assoc]

/-- **What is accepted is read to its end, and laid out** where no length wraps. -/
theorem reached_and_layout {out : CacheEntry} {storedAtWallMs ttlSeconds : UInt64}
    (read : deserialize blob = some (out, storedAtWallMs, ttlSeconds)) :
    (∃ p, Reached blob ⟨.done, p⟩) ∧
      (Straight blob → Nonempty (Layout blob out storedAtWallMs ttlSeconds)) := by
  obtain ⟨p₁, status, p₂, p₃, p₄, p₅, p₆, p₇, n, p₈, p₉, p₁₀, magicLine, statusLine, ttlLine,
    swrLine, wallLine, reasonRead, etagRead, countLine, headersRead, bodyRead, status_eq⟩ :=
    deserialize_eq_some read
  -- The run through the stages.
  have r₁ : Reached blob ⟨.status, p₁⟩ := Reached.start.step (by simp [readField, magicLine])
  have r₂ : Reached blob ⟨.ttlSeconds, p₂⟩ := r₁.step (by simp [readField, statusLine])
  have r₃ : Reached blob ⟨.swr, p₃⟩ := r₂.step (by simp [readField, ttlLine])
  have r₄ : Reached blob ⟨.storedAtWallMs, p₄⟩ := r₃.step (by simp [readField, swrLine])
  have r₅ : Reached blob ⟨.reason, p₅⟩ := r₄.step (by simp [readField, wallLine])
  have r₆ : Reached blob ⟨.etag, p₆⟩ := r₅.step (by simp [readField, reasonRead])
  have r₇ : Reached blob ⟨.nHeaders, p₇⟩ := r₆.step (by simp [readField, etagRead])
  have r₈ : Reached blob ⟨.round 0 (0 + n.toNat), p₈⟩ := r₇.step (by simp [readField, countLine])
  obtain ⟨r₉, loop⟩ := r₈.readHeaders headersRead
  refine ⟨⟨p₁₀, r₉.step (by simp [readField, bodyRead])⟩, fun straight => ?_⟩
  -- What each of the fields is.
  obtain ⟨pairs, pairsText, length_eq, spelled, headers_eq, pairsHere⟩ := loop straight
  obtain ⟨magicHere, -, -⟩ := readLine_eq_some magicLine
  obtain ⟨statusText, status', statusHere, -⟩ := readU_eq_some statusLine
  obtain ⟨ttlText, ttl', ttlHere, -⟩ := readU_eq_some ttlLine
  obtain ⟨swrText, swr', swrHere, -⟩ := readU_eq_some swrLine
  obtain ⟨wallText, wall', wallHere, -⟩ := readU_eq_some wallLine
  obtain ⟨countText, count', countHere, -⟩ := readU_eq_some countLine
  obtain ⟨⟨reasonText, reason', reasonHere⟩, -⟩ :=
    readStr_of_not_wraps reasonRead (straight _ r₅ rfl)
  obtain ⟨⟨etagText, etag', etagHere⟩, -⟩ := readStr_of_not_wraps etagRead (straight _ r₆ rfl)
  obtain ⟨⟨bodyText, body', bodyHere⟩, -⟩ := readStr_of_not_wraps bodyRead (straight _ r₉ rfl)
  refine ⟨status, n, pairs, statusText, ttlText, swrText, wallText, reasonText, etagText, countText,
    pairsText, bodyText, blob.drop p₁₀, status_eq, headers_eq, length_eq,
    ⟨status', ttl', swr', wall', count'⟩, ⟨reason', etag', spelled, body'⟩, ?_⟩
  rw [← bodyHere, ← pairsHere, ← countHere, ← etagHere, ← reasonHere, ← wallHere, ← swrHere,
    ← ttlHere, ← statusHere, ← magicHere, List.drop_zero]

/-! ## Safety -/

/-- **Reading is safe**: the cursor stays in the blob and moves forward, a string is accepted only
if its declared length is what is left at most, no more rounds of the header loop begin than there
are bytes, and what is accepted is laid out one field after the other. -/
structure Safe (blob : ByteString) : Prop where
  bounded : ∀ r, Reached blob r → r.p ≤ blob.length
  forward : ∀ r r', Reached blob r → readField blob r = some r' → r.p < r'.p
  fits : ∀ r r' len q, Reached blob r → r.stage.isText = true → readField blob r = some r' →
    readU blob r.p = some (len, q) → q + len.toNat ≤ blob.length
  rounds : ∀ i n p, Reached blob ⟨.name i n, p⟩ → i + 1 ≤ blob.length
  layout : ∀ out storedAtWallMs ttlSeconds,
    deserialize blob = some (out, storedAtWallMs, ttlSeconds) →
    Nonempty (Layout blob out storedAtWallMs ttlSeconds)

/-- The cursor is in the blob wherever `deserialize` gets. -/
theorem Reached.le_length (reached : Reached blob r) : r.p ≤ blob.length := by
  rcases Relation.ReflTransGen.cases_tail reached with rfl | ⟨before, -, _, -, read⟩
  · exact Nat.zero_le _
  · exact le_of_readField read

/-- A field that wraps is read. -/
theorem exists_readField_of_wraps (isText : r.stage.isText = true)
    (wraps : Wraps blob r.p) : ∃ r', readField blob r = some r' := by
  obtain ⟨len, q, declared, -, ends⟩ := wraps
  have inside := (List.getElem?_eq_some_iff.mp ends).1
  have read := readStr_eq_some_iff.mpr ⟨len, q, declared, by omega, ends, rfl, rfl⟩
  obtain ⟨stage, p⟩ := r
  cases stage <;> first | exact ⟨_, by rw [readField, read]; rfl⟩ | cases isText

/-- **Reading a blob is safe exactly if no length that is read wraps.** -/
theorem safe_iff (size : blob.length < 2 ^ 64) : Safe blob ↔ Straight blob := by
  constructor
  · intro safe r reached isText wraps
    obtain ⟨r', read⟩ := exists_readField_of_wraps isText wraps
    obtain ⟨len, q, declared, large, -⟩ := wraps
    have left := safe.fits r r' len q reached isText read declared
    omega
  · intro straight
    refine ⟨fun r => Reached.le_length, fun r r' reached => straight.forward reached, ?_, ?_,
      fun out wall ttl read => (reached_and_layout read).2 straight⟩
    · intro r r' len q reached isText read declared
      rcases readField_reads read with ⟨-, s, here⟩ | ⟨other, -⟩
      · obtain ⟨-, -, -, left⟩ := readStr_of_not_wraps here (straight r reached isText)
        exact left len q declared
      · rw [isText] at other
        cases other
    · intro i n p reached
      have begun : i + 1 ≤ p := straight.ahead reached
      exact begun.trans reached.le_length

/-! ## A blob that is read safely, and one that is not -/

/-- Readings that lead to no others are all there are. -/
theorem Reached.mem_of_closed {l : List Reading} (start : ⟨.magic, 0⟩ ∈ l)
    (closed : ∀ r ∈ l, ∀ r' ∈ readField blob r, r' ∈ l) (reached : Reached blob r) : r ∈ l :=
  Steps.invariant (fun r _ r' _ read mem => closed r mem r' read) reached start

/-- The readings along the first fields. -/
def trail (blob : ByteString) : ℕ → Reading → List Reading
  | 0, _ => []
  | n + 1, r => r :: (readField blob r).toList.flatMap (trail blob n)

/-- What `put` writes for an entry is read safely. -/
theorem safe_oddEntry : Safe (serialize oddEntry 99) := by
  refine (safe_iff (by decide +kernel)).mpr fun r reached isText => ?_
  have mem : r ∈ trail (serialize oddEntry 99) 14 ⟨.magic, 0⟩ :=
    reached.mem_of_closed (by decide +kernel) (by decide +kernel)
  have small : ∀ r ∈ trail (serialize oddEntry 99) 14 ⟨.magic, 0⟩, r.stage.isText = true →
      ∀ declared ∈ readU (serialize oddEntry 99) r.p,
        declared.2 + declared.1.toNat < 2 ^ 64 := by decide +kernel
  rintro ⟨len, q, declared, large, -⟩
  have less : q + len.toNat < 2 ^ 64 := small r mem isText (len, q) declared
  omega

/-- A blob of 49 bytes that declares 200 headers.  The length of the first value leads back to
the name. -/
def loopingBlob : ByteString :=
  bytes "EC2\n200\n60\n0\n0\n0\n\n0\n\n200\n0\n\n18446744073709551591\n"

theorem reached_round_loopingBlob {i : ℕ} (few : i ≤ 200) :
    Reached loopingBlob ⟨.round i 200, 25⟩ := by
  induction i with
  | zero =>
      have ran : run (next loopingBlob) ⟨.magic, 0⟩ (List.replicate 8 ()) =
          some ⟨.round 0 200, 25⟩ := by decide +kernel
      exact Steps.of_run (meets_true _ _ _) ran
  | succ i ih =>
      have here := ih (by omega)
      rw [Stage.round, if_pos (by omega)] at here
      have name : readStr loopingBlob 25 = some ([], 28) := by decide +kernel
      have value : (readStr loopingBlob 28).map Prod.snd = some 25 := by decide +kernel
      obtain ⟨⟨text, q⟩, read, rfl⟩ := Option.map_eq_some_iff.mp value
      have atValue : Reached loopingBlob ⟨.value i 200, 28⟩ :=
        here.step (by rw [readField, name]; rfl)
      exact atValue.step (by rw [readField, read]; rfl)

/-- **The loop goes round 200 times on 49 bytes**, and the blob is accepted. -/
theorem not_safe_loopingBlob :
    loopingBlob.length = 49 ∧ (deserialize loopingBlob).isSome = true ∧
      Reached loopingBlob ⟨.name 199 200, 25⟩ ∧ ¬ Safe loopingBlob := by
  have last : Reached loopingBlob ⟨.name 199 200, 25⟩ :=
    reached_round_loopingBlob (i := 199) (by decide)
  refine ⟨by decide +kernel, by decide +kernel, last, fun safe => ?_⟩
  have few := safe.rounds _ _ _ last
  exact absurd few (by decide +kernel)

end RedisL2Cache

end EdgeCache
