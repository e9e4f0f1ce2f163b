import EdgeCache.PipelinedParsing

/-!
# How the bytes arrive

The same bytes can reach the parser in different pieces, and three decisions of `parse` look at what
happens to be buffered: the size limit, which is checked only while the terminator is missing; the
test whether the body is there; and the cut of the body.  This module says for which streams the
pieces make no difference.

`Steady` follows the requests of a stream from the front and asks of each of them what keeps the
pieces from mattering.

* `session_of_stuck`, `session_of_complete` — two kinds of streams on which all pieces give the
  same: those on which the parser stops, and those that begin with a request which is completed at
  one point and in one way.
* `arrivalIndependent_iff` — the pieces make no difference **exactly on the steady streams**.  A
  header block that is accepted although it is longer than the limit is not steady
  (`not_arrivalIndependent_longRequest`).
-/

namespace EdgeCache

open Scan

/-! ## Streams on which the pieces make no difference -/

/-- What a stream gives in whatever pieces it is fed. -/
def Fed (s : ByteString) (requests : List HttpRequest) (ending : Ending) : Prop :=
  ∀ chunks, chunks.flatten = s → Session [] chunks requests ending

/-- **Parsing does not depend on how the bytes arrive**: all pieces give the same requests and the
same ending, and an overlong header block is an error. -/
def ArrivalIndependent (s : ByteString) : Prop :=
  ∃ requests ending, Fed s requests ending ∧
    ∀ rest h, Drains s rest → find rest headerTerminator = some h → 64 * 1024 < h →
      ending = .error

/-- An accepted header block, its terminator and the length it declares. -/
structure Head (s : ByteString) (h : ℕ) (out : HttpRequest) (bodyLen : UInt64) : Prop where
  found : find s headerTerminator = some h
  accepted : parseHead (s.take h) = some (out, bodyLen)

/-- **A steady stream.**  Each of its requests has a header block that is accepted before the limit
is reached, and the sum `headerEnd + 4 + bodyLen` does not wrap, unless nothing comes behind the
block and the parser moves on; behind them it stops for good. -/
inductive Steady : ByteString → Prop where
  | pending {s : ByteString} (missing : find s headerTerminator = none) : Steady s
  | rejected {s : ByteString} {h : ℕ} (found : find s headerTerminator = some h)
      (refused : parseHead (s.take h) = none) : Steady s
  | waiting {s : ByteString} {h : ℕ} {out : HttpRequest} {bodyLen : UInt64}
      (head : Head s h out bodyLen) (small : h + 3 ≤ 64 * 1024)
      (fits : h + 4 + bodyLen.toNat < 2 ^ 64) (short : s.length < h + 4 + bodyLen.toNat) : Steady s
  | next {s : ByteString} {h : ℕ} {out : HttpRequest} {bodyLen : UInt64}
      (head : Head s h out bodyLen) (small : h + 3 ≤ 64 * 1024)
      (fits : h + 4 + bodyLen.toNat < 2 ^ 64) (whole : h + 4 + bodyLen.toNat ≤ s.length)
      (further : Steady (s.drop (h + 4 + bodyLen.toNat))) : Steady s
  | wraps {s : ByteString} {h : ℕ} {out : HttpRequest} {bodyLen : UInt64}
      (head : Head s h out bodyLen) (small : h + 3 ≤ 64 * 1024)
      (wrapped : 2 ^ 64 ≤ h + 4 + bodyLen.toNat) (last : s.length = h + 4)
      (moves : 0 < (totalLength h bodyLen).toNat)
      (further : Steady (s.drop (totalLength h bodyLen).toNat)) : Steady s

/-! ## One call on a part of a stream -/

section Parts

variable {s p : ByteString} {h : ℕ} {out : HttpRequest} {bodyLen : UInt64}

/-- The header block of a part that reaches behind its terminator. -/
theorem Head.of_prefix (head : Head s h out bodyLen) (part : p <+: s) (long : h + 4 ≤ p.length) :
    Head p h out bodyLen := by
  obtain ⟨tail, rfl⟩ := part
  refine ⟨find_of_append head.found long, ?_⟩
  rw [← head.accepted, List.take_append_of_le_length (by omega)]

/-- A part that does not reach behind the terminator has none. -/
theorem find_eq_none_of_short (found : find s headerTerminator = some h) (part : p <+: s)
    (short : p.length < h + 4) : find p headerTerminator = none := by
  cases found' : find p headerTerminator with
  | none => rfl
  | some k =>
      have long := headerEnd_add_four_le found'
      rw [find_of_part part found' found] at long
      omega

/-- Before the limit a part without a terminator asks for more. -/
theorem parse_of_short (found : find s headerTerminator = some h) (small : h + 3 ≤ 64 * 1024)
    (part : p <+: s) (short : p.length < h + 4) : parse p = .needMore := by
  rw [parse_of_find_none (find_eq_none_of_short found part short), if_neg (by omega)]

/-- A call on an accepted block. -/
theorem Head.parse_eq (head : Head s h out bodyLen) :
    parse s =
      if s.length < (totalLength h bodyLen).toNat then .needMore
      else
        .complete { out with body := (s.drop (h + 4)).take bodyLen.toNat }
          (s.drop (totalLength h bodyLen).toNat) :=
  parse_of_accepted head.found head.accepted

/-- A wrapped sum points into the header block. -/
theorem totalLength_lt_of_wrapped (wrapped : 2 ^ 64 ≤ h + 4 + bodyLen.toNat) (small : h + 3 ≤ 64 * 1024) :
    (totalLength h bodyLen).toNat < h + 4 := by
  have bound := bodyLen.toNat_lt
  rw [totalLength_toNat]
  omega

end Parts

/-! ## Two kinds of streams -/

section Sessions

variable {s buffer : ByteString} {chunks : List ByteString} {requests : List HttpRequest}
  {ending : Ending}

/-- A feed that leaves the parser waiting. -/
theorem session_of_needMore {chunk : ByteString} (more : parse (buffer ++ chunk) = .needMore)
    (further : Session (buffer ++ chunk) chunks requests ending) :
    Session buffer (chunk :: chunks) requests ending :=
  .feed (.needMore more) further

/-- **The parser stops on the stream**: every part of it asks for more or gives what the whole
stream gives. -/
theorem session_of_stuck (stuck : ∀ p, p <+: s → parse p = .needMore ∨ parse p = parse s)
    (drain : Drain s [] ending) (more : parse buffer = .needMore)
    (cut : buffer ++ chunks.flatten = s) : Session buffer chunks [] ending := by
  induction chunks generalizing buffer with
  | nil =>
      rw [List.flatten_nil, List.append_nil] at cut
      subst cut
      cases drain with
      | needMore => exact .done buffer
      | error failed => rw [more] at failed; cases failed
  | cons chunk chunks ih =>
      rw [List.flatten_cons, ← List.append_assoc] at cut
      have part : buffer ++ chunk <+: s := ⟨_, cut⟩
      rcases stuck _ part with waits | same
      · exact session_of_needMore waits (ih waits cut)
      · cases drain with
        | needMore waits =>
            rw [waits] at same
            exact session_of_needMore same (ih same cut)
        | error failed => exact .stop (.error (same.trans failed))

/-- **The stream begins with a request** that every part of `n` bytes or more completes, and in the
same way, while every shorter one asks for more. -/
theorem session_of_complete {n total : ℕ} {request : HttpRequest} (inside : n ≤ s.length)
    (cuts : total ≤ n) (short : ∀ p, p <+: s → p.length < n → parse p = .needMore)
    (long : ∀ p, p <+: s → n ≤ p.length → parse p = .complete request (p.drop total))
    (fed : Fed (s.drop total) requests ending) (more : parse buffer = .needMore)
    (cut : buffer ++ chunks.flatten = s) :
    Session buffer chunks (request :: requests) ending := by
  induction chunks generalizing buffer with
  | nil =>
      rw [List.flatten_nil, List.append_nil] at cut
      subst cut
      rw [long buffer (List.prefix_refl buffer) inside] at more
      cases more
  | cons chunk chunks ih =>
      rw [List.flatten_cons, ← List.append_assoc] at cut
      have part : buffer ++ chunk <+: s := ⟨_, cut⟩
      rcases Nat.lt_or_ge (buffer ++ chunk).length n with early | late
      · have waits := short _ part early
        exact session_of_needMore waits (ih waits cut)
      · -- What is left of this feed is the first feed of the rest of the stream.
        have completed := long _ part late
        have rest : ((buffer ++ chunk).drop total :: chunks).flatten = s.drop total := by
          rw [List.flatten_cons, ← List.drop_append_of_le_length (cuts.trans late), cut]
        cases fed _ rest with
        | feed drained following => exact .feed (.complete completed drained) following
        | stop failed => exact .stop (.complete completed failed)

end Sessions

/-! ## Steady streams -/

section Steadies

variable {s : ByteString} {h : ℕ} {out : HttpRequest} {bodyLen : UInt64}

/-- A stream without a terminator stops the parser, at the limit with an error. -/
theorem fed_of_pending (missing : find s headerTerminator = none) :
    ∃ ending, Fed s [] ending := by
  have one (p : ByteString) (part : p <+: s) :
      parse p = if p.length > 64 * 1024 then .error else .needMore := by
    refine parse_of_find_none ?_
    cases found : find p headerTerminator with
    | none => rfl
    | some k =>
        obtain ⟨tail, rfl⟩ := part
        rw [find_append tail found] at missing
        cases missing
  have stuck (p : ByteString) (part : p <+: s) : parse p = .needMore ∨ parse p = parse s := by
    rw [one p part, one s (List.prefix_refl s)]
    split
    · rename_i long
      exact .inr (if_pos (lt_of_lt_of_le long part.length_le)).symm
    · exact .inl rfl
  obtain ⟨ending, drain⟩ : ∃ ending, Drain s [] ending := by
    have here := one s (List.prefix_refl s)
    split at here
    · exact ⟨_, .error here⟩
    · exact ⟨_, .needMore here⟩
  exact ⟨ending, fun chunks cut => session_of_stuck stuck drain rfl cut⟩

/-- A stream with a rejected block ends with an error. -/
theorem fed_of_rejected (found : find s headerTerminator = some h)
    (refused : parseHead (s.take h) = none) : Fed s [] .error := by
  have failed := parse_of_rejected found refused
  refine fun chunks cut => session_of_stuck (fun p part => ?_) (.error failed) rfl cut
  rw [failed]
  rcases Nat.lt_or_ge p.length (h + 4) with short | long
  · rw [parse_of_find_none (find_eq_none_of_short found part short)]
    split
    · exact .inr rfl
    · exact .inl rfl
  · obtain ⟨tail, rfl⟩ := part
    refine .inr (parse_of_rejected (find_of_append found long) ?_)
    rw [← refused, List.take_append_of_le_length (by omega)]

/-- A stream whose first body is not all there waits for it. -/
theorem fed_of_waiting (head : Head s h out bodyLen) (small : h + 3 ≤ 64 * 1024)
    (fits : h + 4 + bodyLen.toNat < 2 ^ 64) (short : s.length < h + 4 + bodyLen.toNat) :
    Fed s [] (.needMore s) := by
  have waits (p : ByteString) (part : p <+: s) : parse p = .needMore := by
    rcases Nat.lt_or_ge p.length (h + 4) with early | late
    · exact parse_of_short head.found small part early
    · rw [(head.of_prefix part late).parse_eq, totalLength_of_lt fits,
        if_pos (lt_of_le_of_lt part.length_le short)]
  exact fun chunks cut => session_of_stuck (fun p part => .inl (waits p part))
    (.needMore (waits s (List.prefix_refl s))) rfl cut

/-- A stream whose first request is whole gives it, and then what the rest gives. -/
theorem fed_of_next {requests : List HttpRequest} {ending : Ending} (head : Head s h out bodyLen)
    (small : h + 3 ≤ 64 * 1024) (fits : h + 4 + bodyLen.toNat < 2 ^ 64)
    (whole : h + 4 + bodyLen.toNat ≤ s.length)
    (fed : Fed (s.drop (h + 4 + bodyLen.toNat)) requests ending) :
    Fed s ({ out with body := (s.drop (h + 4)).take bodyLen.toNat } :: requests) ending := by
  refine fun chunks cut => session_of_complete whole le_rfl (fun p part early => ?_)
    (fun p part late => ?_) fed rfl cut
  · rcases Nat.lt_or_ge p.length (h + 4) with short | long
    · exact parse_of_short head.found small part short
    · rw [(head.of_prefix part long).parse_eq, totalLength_of_lt fits, if_pos early]
  · rw [(head.of_prefix part (by omega)).parse_eq, totalLength_of_lt fits, if_neg (by omega)]
    obtain ⟨tail, rfl⟩ := part
    rw [List.drop_append_of_le_length (by omega), List.take_append_of_le_length]
    rw [List.length_drop]
    omega

/-- Where the sum wraps and nothing comes behind the block, its request has no body. -/
theorem fed_of_wraps {requests : List HttpRequest} {ending : Ending} (head : Head s h out bodyLen)
    (small : h + 3 ≤ 64 * 1024) (wrapped : 2 ^ 64 ≤ h + 4 + bodyLen.toNat)
    (last : s.length = h + 4)
    (fed : Fed (s.drop (totalLength h bodyLen).toNat) requests ending) :
    Fed s ({ out with body := [] } :: requests) ending := by
  have back := totalLength_lt_of_wrapped wrapped small
  refine fun chunks cut => session_of_complete last.ge back.le (fun p part early => ?_)
    (fun p part late => ?_) fed rfl cut
  · exact parse_of_short head.found small part early
  · have same : p = s := part.eq_of_length_le (last.le.trans late)
    rw [same, head.parse_eq, if_neg (by omega), List.drop_eq_nil_of_le last.le, List.take_nil]

/-- **On a steady stream all pieces give the same.** -/
theorem Steady.fed (steady : Steady s) : ∃ requests ending, Fed s requests ending := by
  induction steady with
  | pending missing => exact ⟨[], fed_of_pending missing⟩
  | rejected found refused => exact ⟨[], .error, fed_of_rejected found refused⟩
  | waiting head small fits short => exact ⟨[], _, fed_of_waiting head small fits short⟩
  | next head small fits whole _ ih =>
      obtain ⟨requests, ending, fed⟩ := ih
      exact ⟨_, ending, fed_of_next head small fits whole fed⟩
  | wraps head small wrapped last _ _ ih =>
      obtain ⟨requests, ending, fed⟩ := ih
      exact ⟨_, ending, fed_of_wraps head small wrapped last fed⟩

/-- An accepted block that is found again is the same. -/
theorem Head.unique {h' : ℕ} {out' : HttpRequest} {bodyLen' : UInt64} (head : Head s h out bodyLen)
    (head' : Head s h' out' bodyLen') : h = h' ∧ out = out' ∧ bodyLen = bodyLen' := by
  obtain rfl : h = h' := Option.some.inj (head.found.symm.trans head'.found)
  obtain ⟨rfl, rfl⟩ := Prod.mk.inj (Option.some.inj (head.accepted.symm.trans head'.accepted))
  exact ⟨rfl, rfl, rfl⟩

/-- What a completed request leaves of a steady stream is steady. -/
theorem Steady.of_complete {rest : ByteString} {request : HttpRequest} (steady : Steady s)
    (completed : parse s = .complete request rest) : Steady rest := by
  obtain ⟨h, out, bodyLen, found, accepted, fits, -, rfl⟩ := parse_eq_complete_iff.mp completed
  have head : Head s h out bodyLen := ⟨found, accepted⟩
  cases steady with
  | pending missing => rw [missing] at found; cases found
  | rejected found' refused =>
      cases found.symm.trans found'
      rw [refused] at accepted
      cases accepted
  | waiting head' _ small short =>
      obtain ⟨rfl, rfl, rfl⟩ := head.unique head'
      rw [totalLength_of_lt small] at fits
      omega
  | next head' _ small _ further =>
      obtain ⟨rfl, rfl, rfl⟩ := head.unique head'
      rwa [totalLength_of_lt small]
  | wraps head' _ _ _ _ further =>
      obtain ⟨rfl, rfl, rfl⟩ := head.unique head'
      exact further

theorem Steady.of_drains {rest : ByteString} (steady : Steady s) (reached : Drains s rest) :
    Steady rest := by
  induction reached with
  | refl => exact steady
  | tail _ last ih =>
      obtain ⟨request, completed⟩ := last
      exact ih.of_complete completed

/-- An overlong block of a steady stream is rejected. -/
theorem Steady.error_of_long (steady : Steady s) (found : find s headerTerminator = some h)
    (long : 64 * 1024 < h) : parse s = .error := by
  have same {k : ℕ} {out : HttpRequest} {bodyLen : UInt64} (head : Head s k out bodyLen) :
      k = h := Option.some.inj (head.found.symm.trans found)
  cases steady with
  | pending missing =>
      rw [missing] at found
      cases found
  | rejected found' refused => exact parse_of_rejected found' refused
  | waiting head small => cases same head; omega
  | next head small => cases same head; omega
  | wraps head small => cases same head; omega

end Steadies

/-- Where the loop gets from a buffer to one with an error, it ends with an error. -/
theorem eq_error_of_drains {s rest : ByteString} {requests : List HttpRequest} {ending : Ending}
    (reached : Drains s rest) (failed : parse rest = .error) (drain : Drain s requests ending) :
    ending = .error := by
  induction reached using Relation.ReflTransGen.head_induction_on generalizing requests with
  | refl => exact (drain.unique (.error failed)).2
  | head first _ ih =>
      obtain ⟨request, completed⟩ := first
      cases drain with
      | needMore more => rw [completed] at more; cases more
      | error => rfl
      | complete completed' further =>
          rw [completed] at completed'
          cases completed'
          exact ih further

/-- A stream that is fed at once is drained at once. -/
theorem Fed.drain {s : ByteString} {requests : List HttpRequest} {ending : Ending}
    (fed : Fed s requests ending) : Drain s requests ending := by
  cases fed [s] (List.append_nil s) with
  | feed drained following =>
      cases following
      rwa [List.append_nil]
  | stop failed => exact failed

/-- **On steady streams parsing does not depend on how the bytes arrive.** -/
theorem Steady.arrivalIndependent {s : ByteString} (steady : Steady s) : ArrivalIndependent s := by
  obtain ⟨requests, ending, fed⟩ := steady.fed
  refine ⟨requests, ending, fed, fun rest h reached found long => ?_⟩
  exact eq_error_of_drains reached ((steady.of_drains reached).error_of_long found long) fed.drain

/-! ## Streams that are not steady -/

section Converse

variable {s : ByteString} {requests : List HttpRequest} {ending : Ending} {h : ℕ}
  {out : HttpRequest} {bodyLen : UInt64}

/-- The stream is fed in two pieces. -/
theorem Fed.split (fed : Fed s requests ending) (n : ℕ) :
    Session [] [s.take n, s.drop n] requests ending :=
  fed _ (by simp)

/-- **An accepted block is within the limit**: where its last byte comes apart from it, the limit is
checked. -/
theorem Fed.small (fed : Fed s requests ending) (head : Head s h out bodyLen) :
    h + 3 ≤ 64 * 1024 := by
  by_contra large
  have long := headerEnd_add_four_le head.found
  have size : (s.take (h + 3)).length = h + 3 := List.length_take_of_le (by omega)
  have failed : parse (s.take (h + 3)) = .error := by
    rw [parse_of_find_none (find_eq_none_of_short head.found (List.take_prefix _ s) (by omega)),
      if_pos (by omega)]
  have same : requests = [] ∧ ending = .error := by
    cases fed.split (h + 3) with
    | feed drained => cases (drained.unique (.error failed)).2
    | stop failed' => exact failed'.unique (.error failed)
  obtain ⟨rfl, rfl⟩ := same
  have accepted := head.parse_eq
  cases fed.drain with
  | error failed' =>
      rw [failed'] at accepted
      split at accepted <;> cases accepted

/-- The first request is the one that a part of the stream completes with nothing left. -/
theorem Fed.rest {n : ℕ} {request : HttpRequest} (fed : Fed s requests ending)
    (completed : parse (s.take n) = .complete request []) :
    ∃ further, requests = request :: further ∧ Fed (s.drop n) further ending := by
  have drain : Drain (s.take n) [request] (.needMore []) := .complete completed (.needMore rfl)
  have first (chunks : List ByteString) (cut : chunks.flatten = s.drop n) :
      ∃ further, requests = request :: further ∧ Session [] chunks further ending := by
    have session := fed (s.take n :: chunks) (by
      rw [List.flatten_cons, cut, List.take_append_drop])
    cases session with
    | feed drained following =>
        obtain ⟨rfl, same⟩ := drained.unique drain
        cases same
        exact ⟨_, rfl, following⟩
    | stop failed => cases (failed.unique drain).2
  obtain ⟨further, rfl, -⟩ := first [s.drop n] (by simp)
  refine ⟨further, rfl, fun chunks cut => ?_⟩
  obtain ⟨further', same, session⟩ := first chunks cut
  rwa [(List.cons.inj same).2]

/-- A whole first request is completed by its own bytes. -/
theorem Head.parse_take (head : Head s h out bodyLen) (fits : h + 4 + bodyLen.toNat < 2 ^ 64)
    (whole : h + 4 + bodyLen.toNat ≤ s.length) :
    ∃ request, parse (s.take (h + 4 + bodyLen.toNat)) = .complete request [] := by
  have size : (s.take (h + 4 + bodyLen.toNat)).length = h + 4 + bodyLen.toNat :=
    List.length_take_of_le whole
  have part := head.of_prefix (List.take_prefix (h + 4 + bodyLen.toNat) s) (by omega)
  have result := part.parse_eq
  rw [totalLength_of_lt fits, if_neg (by omega), List.drop_eq_nil_of_le size.le] at result
  exact ⟨_, result⟩

/-- **Where the sum wraps, nothing comes behind the block**: it would be the body of the first
request or not, depending on the pieces. -/
theorem Fed.last (fed : Fed s requests ending) (head : Head s h out bodyLen)
    (small : h + 3 ≤ 64 * 1024) (wrapped : 2 ^ 64 ≤ h + 4 + bodyLen.toNat) : s.length = h + 4 := by
  have long := headerEnd_add_four_le head.found
  have back := totalLength_lt_of_wrapped wrapped small
  by_contra more
  have size : (s.take (h + 4)).length = h + 4 := List.length_take_of_le long
  -- All at once, the first request has a body.
  have atOnce : ∃ further,
      requests = { out with body := (s.drop (h + 4)).take bodyLen.toNat } :: further := by
    have result := head.parse_eq
    rw [if_neg (by omega)] at result
    cases fed.drain with
    | needMore waits => rw [waits] at result; cases result
    | error failed => rw [failed] at result; cases result
    | complete completed =>
        rw [completed] at result
        cases result
        exact ⟨_, rfl⟩
  -- Up to the end of the block, it has none.
  have apart : ∃ further, requests = { out with body := [] } :: further := by
    have result := (head.of_prefix (List.take_prefix _ s) size.ge).parse_eq
    rw [if_neg (by omega), List.drop_eq_nil_of_le size.le, List.take_nil] at result
    cases fed.split (h + 4) with
    | feed drained following =>
        cases drained with
        | needMore waits => rw [List.nil_append, result] at waits; cases waits
        | complete completed =>
            rw [List.nil_append, result] at completed
            cases completed
            exact ⟨_, rfl⟩
    | stop failed =>
        cases failed with
        | error failed => rw [List.nil_append, result] at failed; cases failed
        | complete completed =>
            rw [List.nil_append, result] at completed
            cases completed
            exact ⟨_, rfl⟩
  obtain ⟨further, same⟩ := atOnce
  obtain ⟨further', same'⟩ := apart
  rw [same] at same'
  have body := congrArg (fun r : List HttpRequest => (r.map (·.body)).head?) same'
  simp only [List.map_cons, List.head?_cons, Option.some.injEq] at body
  have none := congrArg List.length body
  rw [List.length_take, List.length_drop, List.length_nil] at none
  omega

/-- The terminator at the end of a stream is the first one of what is left of it. -/
theorem find_drop_of_last {n k : ℕ} (found : find s headerTerminator = some h)
    (last : s.length = h + 4) (found' : find (s.drop n) headerTerminator = some k) :
    (s.drop n).length = k + 4 ∧ k ≤ h := by
  obtain ⟨-, -, first⟩ := find_eq_some_iff.mp found
  obtain ⟨-, here, -⟩ := find_eq_some_iff.mp found'
  have long := headerEnd_add_four_le found'
  rw [List.drop_drop] at here
  have behind : h ≤ n + k := not_lt.mp fun before => first _ before here
  rw [List.length_drop] at long ⊢
  omega

/-- Only a first block that is accepted leaves a question. -/
theorem steady_of_head
    (goesOn : ∀ h out bodyLen, Head s h out bodyLen → Steady s) : Steady s := by
  cases found : find s headerTerminator with
  | none => exact .pending found
  | some h =>
      cases accepted : parseHead (s.take h) with
      | none => exact .rejected found accepted
      | some head => exact goesOn h head.1 head.2 ⟨found, accepted⟩

/-- A stream that is over with its first block is steady if the loop ends on it. -/
theorem steady_of_drain (drain : Drain s requests ending)
    (last : ∀ h, find s headerTerminator = some h → s.length = h + 4 ∧ h + 3 ≤ 64 * 1024) :
    Steady s := by
  induction drain with
  | @needMore s more =>
      refine steady_of_head fun h out bodyLen head => ?_
      obtain ⟨size, small⟩ := last h head.found
      rw [head.parse_eq] at more
      split at more
      · rename_i short
        rcases Nat.lt_or_ge (h + 4 + bodyLen.toNat) (2 ^ 64) with fits | wrapped
        · rw [totalLength_of_lt fits] at short
          exact .waiting head small fits short
        · have back := totalLength_lt_of_wrapped wrapped small
          omega
      · cases more
  | @error s failed =>
      refine steady_of_head fun h out bodyLen head => ?_
      rw [head.parse_eq] at failed
      split at failed <;> cases failed
  | @complete s rest request requests ending completed further ih =>
      have moves := not_wrapsToZero_of_drain (.complete completed further)
      obtain ⟨h, out, bodyLen, found, accepted, inside, -, rfl⟩ :=
        parse_eq_complete_iff.mp completed
      obtain ⟨size, small⟩ := last h found
      have steady := ih fun k found' => by
        obtain ⟨size', before⟩ := find_drop_of_last found size found'
        exact ⟨size', by omega⟩
      rcases Nat.lt_or_ge (h + 4 + bodyLen.toNat) (2 ^ 64) with fits | wrapped
      · rw [totalLength_of_lt fits] at inside steady
        exact .next ⟨found, accepted⟩ small fits inside steady
      · refine .wraps ⟨found, accepted⟩ small wrapped size (Nat.pos_of_ne_zero fun zero => ?_) steady
        exact moves ⟨h, out, bodyLen, found, accepted, by rw [← totalLength_toNat, zero]⟩

end Converse

/-- **A stream on which the pieces make no difference is steady.** -/
theorem Fed.steady {s : ByteString} {requests : List HttpRequest} {ending : Ending}
    (fed : Fed s requests ending) : Steady s := by
  -- Strong induction on what is left of the stream.
  induction length : s.length using Nat.strong_induction_on generalizing s requests with
  | _ size ih =>
      refine steady_of_head fun h out bodyLen head => ?_
      have small := fed.small head
      rcases Nat.lt_or_ge (h + 4 + bodyLen.toNat) (2 ^ 64) with fits | wrapped
      · rcases Nat.lt_or_ge s.length (h + 4 + bodyLen.toNat) with short | whole
        · exact .waiting head small fits short
        · obtain ⟨request, completed⟩ := head.parse_take fits whole
          obtain ⟨further, -, rest⟩ := fed.rest completed
          refine .next head small fits whole (ih _ ?_ rest rfl)
          rw [List.length_drop]
          omega
      · have last := fed.last head small wrapped
        exact steady_of_drain fed.drain fun k found => by
          cases head.found.symm.trans found
          exact ⟨last, small⟩

/-- **Parsing does not depend on how the bytes arrive exactly on the steady streams.** -/
theorem arrivalIndependent_iff (s : ByteString) : ArrivalIndependent s ↔ Steady s :=
  ⟨fun ⟨_, _, fed, _⟩ => fed.steady, Steady.arrivalIndependent⟩

/-! ## An overlong block -/

/-- A block of nothing but a request line is accepted where its end has arrived. -/
theorem head_requestLine {method target version : ByteString} (m : IsWord method)
    (t : IsWord target) (v : IsWord version) :
    ∃ out, Head (requestLine method target version ++ headerTerminator)
      (requestLine method target version).length out 0 := by
  have isLine := isLine_requestLine m t v
  have words := readRequestLine_requestLine m t v
  generalize requestLine method target version = line at isLine words ⊢
  have found : find (line ++ headerTerminator) headerTerminator = some line.length := by
    have := @find_joinLines [line] (by simpa using isLine.bare) []
    rwa [List.append_nil] at this
  have popped : popCR line = line := if_neg fun last => isLine.noCR (List.mem_of_getLast? last)
  have accepted : (parseHead ((line ++ headerTerminator).take line.length)).map Prod.snd =
      some 0 := by
    rw [List.take_left, parseHead, lines_of_notMem isLine.nonempty isLine.noLF]
    simp only [popped, words, readHeaders]
    rfl
  obtain ⟨⟨out, _⟩, accepted, rfl⟩ := Option.map_eq_some_iff.mp accepted
  exact ⟨out, found, accepted⟩

/-- **A request for an overlong target is accepted or not, depending on the pieces.** -/
theorem not_arrivalIndependent_of_long {target : ByteString} (word : IsWord target)
    (long : 64 * 1024 ≤ target.length) :
    ¬ ArrivalIndependent
      (requestLine (bytes "GET") target (bytes "HTTP/1.1") ++ headerTerminator) := by
  obtain ⟨out, head⟩ := @head_requestLine (bytes "GET") target (bytes "HTTP/1.1")
    ⟨by decide +kernel, by decide +kernel⟩ word ⟨by decide +kernel, by decide +kernel⟩
  have longer : 64 * 1024 < (requestLine (bytes "GET") target (bytes "HTTP/1.1")).length := by
    simp only [requestLine, List.length_append, List.length_singleton]
    omega
  intro independent
  have failed := ((arrivalIndependent_iff _).mp independent).error_of_long head.found longer
  rw [head.parse_eq] at failed
  split at failed <;> cases failed

/-- A slash and so many letters. -/
def longTarget (n : ℕ) : ByteString := 47 :: List.replicate n 97

theorem isWord_longTarget (n : ℕ) : IsWord (longTarget n) := by
  refine ⟨List.cons_ne_nil _ _, fun c mem => ?_⟩
  rcases List.mem_cons.mp mem with rfl | mem
  · decide
  · rw [List.eq_of_mem_replicate mem]
    decide

theorem length_longTarget (n : ℕ) : (longTarget n).length = n + 1 := by
  rw [longTarget, List.length_cons, List.length_replicate]

theorem not_arrivalIndependent_longTarget :
    ¬ ArrivalIndependent
      (requestLine (bytes "GET") (longTarget 65535) (bytes "HTTP/1.1") ++ headerTerminator) :=
  not_arrivalIndependent_of_long (isWord_longTarget 65535) (length_longTarget 65535).ge

end EdgeCache
