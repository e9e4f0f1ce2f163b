import EdgeCache.CachePolicy
import EdgeCache.Resp
import EdgeCache.RuleMirror

/-!
# The text of a rule

The control plane writes a rule as a JSON object, the proxy searches the text for the names of the
fields.

* `parseRuleJson_ruleValue` — **reading undoes writing**: the proxy finds the pattern, the seconds
  and the origin of the row.
* `reloadRules_hgetall` — so a reply to `HGETALL` is read as the rules it lists.
-/

namespace EdgeCache

open Scan RedisCoordinator

/-! ## Reading -/

/-- What `jsonField` takes from behind the colon. -/
def jsonValue (json : ByteString) : ByteString :=
  match json.dropWhile isBlank with
  | [] => []
  | c :: rest =>
      if c = 34 then
        match find rest [34] with
        | none => []
        | some length => rest.take length
      else (c :: rest).takeWhile fun c => c ≠ 44 ∧ c ≠ 125 ∧ c ≠ 32

/-- `jsonField`. -/
def jsonField (json key : ByteString) : ByteString :=
  let needle := [34] ++ key ++ [34]
  match find json needle with
  | none => []
  | some p =>
      match find (json.drop (p + needle.length)) [COLON] with
      | none => []
      | some q => jsonValue (json.drop (p + needle.length + q + 1))

/-- `toU64`, with its default. -/
def toU64 (s : ByteString) : UInt64 := (stoull s).getD 0

/-- `parseRuleJson`. -/
def parseRuleJson (pathPattern json : ByteString) : Rule where
  pathPattern := pathPattern
  ttlSeconds := toU64 (jsonField json (bytes "ttl"))
  staleWhileRevalidateSeconds := toU64 (jsonField json (bytes "swr"))
  originId := jsonField json (bytes "originId")

/-- The loop of `reloadRules` over fields and values. -/
def readRules : List RedisReply → List Rule
  | field :: value :: rest => parseRuleJson field.str value.str :: readRules rest
  | _ => []

/-- The rules `reloadRules` hands to the store, where it does not answer `false`. -/
def reloadRules (reply : RedisReply) : Option (List Rule) :=
  if reply.isError || reply.type ≠ .array then none else some (readRules reply.elements)

/-! ## Reading what was written -/

/-- The rule a row stands for. -/
def RuleRow.rule (row : RuleRow) : Rule where
  pathPattern := row.pathPattern
  ttlSeconds := UInt64.ofInt row.ttlSeconds.toInt
  staleWhileRevalidateSeconds := UInt64.ofInt row.staleWhileRevalidateSeconds.toInt
  originId := (row.originId.map Uuid.text).getD []

/-- The value of a field whose name is first found where the field is. -/
theorem jsonField_append {front key back : ByteString}
    (found : find (front ++ ([34] ++ key ++ [34] ++ COLON :: back)) ([34] ++ key ++ [34]) =
      some front.length) :
    jsonField (front ++ ([34] ++ key ++ [34] ++ COLON :: back)) key = jsonValue back := by
  have behind : (front ++ ([34] ++ key ++ [34] ++ COLON :: back)).drop
      (front.length + ([34] ++ key ++ [34]).length) = COLON :: back := by
    rw [← List.drop_drop, List.drop_left, List.drop_left]
  have colon : find (COLON :: back) [COLON] = some 0 := find_singleton_append List.not_mem_nil back
  simp only [jsonField, found, behind, colon]
  rw [Nat.add_zero, ← List.drop_drop, behind]
  rfl

theorem solid_intToString (n : ℤ) : ∀ c ∈ intToString n, isUuidByte c = true ∧ c ≠ 34 := by
  have digit : ∀ c : UInt8, isdigit c = true → isUuidByte c = true ∧ c ≠ 34 := by decide +kernel
  intro c mem
  unfold intToString at mem
  split at mem
  · rcases List.mem_cons.mp mem with rfl | mem
    · decide
    · exact digit c ((isDecimal_toString _).2 c mem)
  · exact digit c ((isDecimal_toString _).2 c mem)

theorem intToString_ne_nil (n : ℤ) : intToString n ≠ [] := by
  unfold intToString
  split
  · exact List.cons_ne_nil _ _
  · exact (isDecimal_toString _).1

/-- A number ends at the comma. -/
theorem jsonValue_number (n : ℤ) (back : ByteString) :
    jsonValue (intToString n ++ 44 :: back) = intToString n := by
  have plain : ∀ c : UInt8, isUuidByte c = true ∧ c ≠ 34 →
      isBlank c = false ∧ c ≠ 34 ∧ c ≠ 44 ∧ c ≠ 125 ∧ c ≠ 32 := by decide +kernel
  cases text : intToString n with
  | nil => exact absurd text (intToString_ne_nil n)
  | cons c rest =>
      have solid : ∀ d ∈ c :: rest, isBlank d = false ∧ d ≠ 34 ∧ d ≠ 44 ∧ d ≠ 125 ∧ d ≠ 32 :=
        fun d mem => plain d (solid_intToString n d (text ▸ mem))
      have first := solid c List.mem_cons_self
      rw [jsonValue, List.cons_append, List.dropWhile_cons_of_neg (by simp [first.1])]
      change (if c = 34 then _ else (c :: (rest ++ 44 :: back)).takeWhile _) = _
      rw [if_neg first.2.1, ← List.cons_append, List.takeWhile_append_of_pos fun d mem => by
        simpa using (solid d mem).2.2, List.takeWhile_cons_of_neg (by simp), List.append_nil]

/-- A string ends at its quotation mark. -/
theorem jsonValue_string {text : ByteString} (plain : 34 ∉ text) (back : ByteString) :
    jsonValue (34 :: (text ++ 34 :: back)) = text := by
  have found : find (text ++ 34 :: back) [34] = some text.length :=
    find_singleton_append plain back
  rw [jsonValue, List.dropWhile_cons_of_neg (by decide)]
  change (match find (text ++ 34 :: back) [34] with
    | none => []
    | some length => (text ++ 34 :: back).take length) = _
  rw [found]
  exact List.take_left

/-- The text of a rule before the value of each field. -/
theorem ruleValue_eq (row : RuleRow) :
    ruleValue row = [123] ++ ([34] ++ bytes "ttl" ++ [34] ++ COLON ::
        (intToString row.ttlSeconds.toInt ++ 44 ::
      ([34] ++ bytes "swr" ++ [34] ++ COLON ::
        (intToString row.staleWhileRevalidateSeconds.toInt ++ 44 ::
      ([34] ++ bytes "originId" ++ [34] ++ COLON ::
        34 :: ((row.originId.map Uuid.text).getD [] ++ [34, 125])))))) := by
  have ttl : bytes "\x7b\"ttl\":" = [123] ++ ([34] ++ bytes "ttl" ++ [34] ++ [COLON]) := by
    decide +kernel
  have swr : bytes ",\"swr\":" = 44 :: ([34] ++ bytes "swr" ++ [34] ++ [COLON]) := by
    decide +kernel
  have originId : bytes ",\"originId\":\"" =
      44 :: ([34] ++ bytes "originId" ++ [34] ++ [COLON] ++ [34]) := by decide +kernel
  have ends : bytes "\"\x7d" = [34, 125] := by decide +kernel
  simp only [ruleValue, ttl, swr, originId, ends, List.append_assoc, List.cons_append,
    List.nil_append]

/-- Behind another field with a number, a name is found where it is found in the rest. -/
theorem find_behind_field {front back pat : ByteString} {n : ℤ} {h : ℕ}
    (apart : ∀ j < front.length,
      ¬ 34 :: pat <+: front.drop j ∧ ¬ front.drop j <+: 34 :: pat)
    (found : find back (34 :: pat) = some h) :
    find (front ++ (intToString n ++ 44 :: back)) (34 :: pat) =
      some ((front ++ (intToString n ++ [44])).length + h) := by
  have number : find ((intToString n ++ [44]) ++ back) (34 :: pat) =
      some ((intToString n ++ [44]).length + h) := by
    refine find_append_of_apart (fun j inside => ?_) found
    have other : (intToString n ++ [44])[j] ≠ 34 := by
      rcases List.mem_append.mp (List.getElem_mem inside) with digit | comma
      · exact (solid_intToString n _ digit).2
      · rw [List.mem_singleton.mp comma]
        decide
    rw [List.drop_eq_getElem_cons inside]
    exact ⟨fun here => other (List.cons_prefix_cons.mp here).1.symm,
      fun here => other (List.cons_prefix_cons.mp here).1⟩
  rw [List.append_cons, find_append_of_apart apart number]
  simp only [List.length_append]
  congr 1
  omega

/-- A name is found where it stands. -/
theorem find_at_once (pat back : ByteString) : find (34 :: (pat ++ back)) (34 :: pat) = some 0 :=
  find_append_of_notMem List.not_mem_nil back

theorem jsonField_ttl (row : RuleRow) :
    jsonField (ruleValue row) (bytes "ttl") = intToString row.ttlSeconds.toInt := by
  rw [ruleValue_eq, jsonField_append, jsonValue_number]
  exact find_append_of_notMem (by decide) _

/-- The text before the number of the first field, and the name before that of the second. -/
def beforeTtl : ByteString := [123] ++ ([34] ++ bytes "ttl" ++ [34] ++ [COLON])

/-- The name before the number of the second field. -/
def beforeSwr : ByteString := [34] ++ bytes "swr" ++ [34] ++ [COLON]

theorem jsonField_swr (row : RuleRow) :
    jsonField (ruleValue row) (bytes "swr") =
      intToString row.staleWhileRevalidateSeconds.toInt := by
  have cut : ruleValue row = (beforeTtl ++ (intToString row.ttlSeconds.toInt ++ [44])) ++
      ([34] ++ bytes "swr" ++ [34] ++ COLON ::
        (intToString row.staleWhileRevalidateSeconds.toInt ++ 44 ::
      ([34] ++ bytes "originId" ++ [34] ++ COLON ::
        34 :: ((row.originId.map Uuid.text).getD [] ++ [34, 125])))) := by
    simp only [ruleValue_eq, beforeTtl, List.append_assoc, List.cons_append, List.nil_append]
  rw [cut, jsonField_append, jsonValue_number]
  rw [List.append_assoc, List.append_assoc, List.singleton_append]
  exact find_behind_field (by decide +kernel) (find_at_once _ _)

theorem jsonField_originId (row : RuleRow) :
    jsonField (ruleValue row) (bytes "originId") = (row.originId.map Uuid.text).getD [] := by
  have cut : ruleValue row = (beforeTtl ++ (intToString row.ttlSeconds.toInt ++ 44 ::
      (beforeSwr ++ (intToString row.staleWhileRevalidateSeconds.toInt ++ [44])))) ++
      ([34] ++ bytes "originId" ++ [34] ++ COLON ::
        34 :: ((row.originId.map Uuid.text).getD [] ++ 34 :: [125])) := by
    simp only [ruleValue_eq, beforeTtl, beforeSwr, List.append_assoc, List.cons_append,
      List.nil_append]
  have plain : 34 ∉ (row.originId.map Uuid.text).getD [] := by
    cases row.originId with
    | none => exact List.not_mem_nil
    | some id =>
        intro mem
        have := id.plain 34 mem
        revert this
        decide
  rw [cut, jsonField_append, jsonValue_string plain]
  have second : find (beforeSwr ++ (intToString row.staleWhileRevalidateSeconds.toInt ++ 44 ::
      ([34] ++ bytes "originId" ++ [34] ++ COLON ::
        34 :: ((row.originId.map Uuid.text).getD [] ++ 34 :: [125]))))
      ([34] ++ bytes "originId" ++ [34]) = _ :=
    find_behind_field (by decide +kernel) (find_at_once _ _)
  have first : find (beforeTtl ++ (intToString row.ttlSeconds.toInt ++ 44 :: (beforeSwr ++
      (intToString row.staleWhileRevalidateSeconds.toInt ++ 44 ::
        ([34] ++ bytes "originId" ++ [34] ++ COLON ::
          34 :: ((row.originId.map Uuid.text).getD [] ++ 34 :: [125]))))))
      ([34] ++ bytes "originId" ++ [34]) = _ := find_behind_field (by decide +kernel) second
  rw [List.append_assoc, List.append_assoc, List.cons_append, List.append_assoc, List.append_assoc,
    List.singleton_append, first]
  simp only [List.length_append, List.length_cons, List.length_nil]
  congr 1
  omega

/-- Reading a number back. -/
theorem toU64_intToString (n : Int32) : toU64 (intToString n.toInt) = UInt64.ofInt n.toInt := by
  have low := n.le_toInt
  have high := n.toInt_lt
  rw [toU64, stoull_intToString (by omega), Option.getD_some]

/-- **Reading undoes writing.** -/
theorem parseRuleJson_ruleValue (row : RuleRow) :
    parseRuleJson row.pathPattern (ruleValue row) = row.rule := by
  rw [parseRuleJson, jsonField_ttl, jsonField_swr, jsonField_originId, toU64_intToString,
    toU64_intToString]
  rfl

/-- **The two sides of the codec do not drift.**  The proxy reads the pattern it was given, the
seconds of the row as the same numbers, and the text of its origin, or nothing where the row has
none. -/
theorem parseRuleJson_keeps (pathPattern : ByteString) (row : RuleRow)
    (ttl : 0 ≤ row.ttlSeconds) (swr : 0 ≤ row.staleWhileRevalidateSeconds) :
    (parseRuleJson pathPattern (ruleValue row)).pathPattern = pathPattern ∧
      ((parseRuleJson pathPattern (ruleValue row)).ttlSeconds.toNat : ℤ) =
        row.ttlSeconds.toInt ∧
      ((parseRuleJson pathPattern (ruleValue row)).staleWhileRevalidateSeconds.toNat : ℤ) =
        row.staleWhileRevalidateSeconds.toInt ∧
      (∀ id, row.originId = some id →
        (parseRuleJson pathPattern (ruleValue row)).originId = id.text) ∧
      (row.originId = none → (parseRuleJson pathPattern (ruleValue row)).originId = []) := by
  have seconds : ∀ n : Int32, 0 ≤ n → ((toU64 (intToString n.toInt)).toNat : ℤ) = n.toInt := by
    intro n nonnegative
    have low := Int32.le_iff_toInt_le.mp nonnegative
    have high := n.toInt_lt
    rw [Int32.toInt_zero] at low
    rw [toU64_intToString, UInt64.ofInt, UInt64.toNat_ofNat']
    omega
  refine ⟨rfl, ?_, ?_, fun id is => ?_, fun is => ?_⟩
  · rw [parseRuleJson, jsonField_ttl]
    exact seconds _ ttl
  · rw [parseRuleJson, jsonField_swr]
    exact seconds _ swr
  · rw [parseRuleJson, jsonField_originId, is]
    rfl
  · rw [parseRuleJson, jsonField_originId, is]
    rfl

/-- A row with the largest lifetime and an origin, whose pattern quotes the name of a field. -/
def longestRow : RuleRow where
  id := ruleId
  pathPattern := bytes "/\"swr\":"
  ttlSeconds := 2147483647
  staleWhileRevalidateSeconds := 0
  originId := some ruleId

theorem parseRuleJson_keeps_longestRow :
    ((parseRuleJson longestRow.pathPattern (ruleValue longestRow)).ttlSeconds.toNat : ℤ) =
        2147483647 ∧
      (parseRuleJson longestRow.pathPattern (ruleValue longestRow)).originId =
        ruleId.text := by
  have keeps := parseRuleJson_keeps longestRow.pathPattern longestRow (by decide) (by decide)
  exact ⟨keeps.2.1.trans (by decide), keeps.2.2.2.1 _ rfl⟩

/-! ## The whole hash -/

/-- The reply to `HGETALL`: fields and values, one after the other. -/
def hgetall (listing : List (ByteString × ByteString)) : Resp :=
  .array (listing.flatMap fun e => [.bulk e.1, .bulk e.2])

/-- **A reply is read as the rules it lists.** -/
theorem reloadRules_hgetall (listing : List (ByteString × ByteString)) :
    reloadRules (hgetall listing).toReply =
      some (listing.map fun e => parseRuleJson e.1 e.2) := by
  have read : readRules (Resp.toReplies (listing.flatMap fun e => [.bulk e.1, .bulk e.2])) =
      listing.map fun e => parseRuleJson e.1 e.2 := by
    rw [Resp.toReplies_eq_map]
    induction listing with
    | nil => rfl
    | cons e listing ih =>
        rw [List.flatMap_cons, List.map_append, List.map_cons]
        exact congrArg (parseRuleJson e.1 e.2 :: ·) ih
  exact congrArg some read

end EdgeCache
