import EdgeCache.RedisConnection

/-!
# The subscriber loop

`RedisCoordinator::subscriberLoop` calls `readReply` over and over on one connection and
treats a call that returns `false` as no message.  `Listens` is that loop while the
connection stays up, as `Drain` is the loop over the request parser.

A call that gives up inside a message has already taken the part of it that it read, and the
next call starts in the middle.  It has taken nothing exactly while the header line of the
message is incomplete, so this is the condition under which no message is lost
(`listens_iff`): at every round without bytes, what has been received ends inside a header
line or between messages (`CleanCut`).
-/

namespace EdgeCache

open Scan

/-! ## The loop -/

/-- **The loop on a connection that stays up**: the replies for which `readReply` returns
`true`, until it waits at the end of the script. -/
inductive Listens : Conn → List Round → List RedisReply → Prop where
  | waiting {c : Conn} {script : List Round} (up : c.connected = true)
      (read : readReply script c = .waiting) : Listens c script []
  | message {c c' : Conn} {script script' : List Round} {out : RedisReply}
      {replies : List RedisReply} (up : c.connected = true)
      (read : readReply script c = .returned true out c' script')
      (further : Listens c' script' replies) : Listens c script (out :: replies)
  | nothing {c c' : Conn} {script script' : List Round} {out : RedisReply}
      {replies : List RedisReply} (up : c.connected = true)
      (read : readReply script c = .returned false out c' script')
      (further : Listens c' script' replies) : Listens c script replies

/-- The loop is deterministic. -/
theorem Listens.unique {c : Conn} {script : List Round} {replies replies' : List RedisReply}
    (one : Listens c script replies) (two : Listens c script replies') : replies = replies' := by
  induction one generalizing replies' with
  | waiting _ read =>
      cases two with
      | waiting => rfl
      | message _ read' => rw [read] at read'; cases read'
      | nothing _ read' => rw [read] at read'; cases read'
  | message _ read _ ih =>
      cases two with
      | waiting _ read' => rw [read] at read'; cases read'
      | message _ read' further =>
          rw [read] at read'
          cases read'
          rw [ih further]
      | nothing _ read' => rw [read] at read'; cases read'
  | nothing _ read _ ih =>
      cases two with
      | waiting _ read' => rw [read] at read'; cases read'
      | message _ read' => rw [read] at read'; cases read'
      | nothing _ read' further =>
          rw [read] at read'
          cases read'
          exact ih further

/-- What the loop does with a reply: the payload of a message on the purge channel goes to
`onPurge`. -/
def purgePayload (purgeChannel : ByteString) (msg : RedisReply) : Option ByteString :=
  match msg.type, msg.elements with
  | .array, [kind, channel, payload] =>
      if kind.str = bytes "message" ∧ channel.str = purgeChannel then some payload.str else none
  | _, _ => none

/-- The message Redis sends to the subscribers of a channel. -/
def publication (channel payload : ByteString) : Resp :=
  .array [.bulk (bytes "message"), .bulk channel, .bulk payload]

/-- A publication on the purge channel purges its payload. -/
theorem purgePayload_publication (channel payload : ByteString) :
    purgePayload channel (publication channel payload).toReply = some payload :=
  if_pos ⟨rfl, rfl⟩

/-! ## What has arrived -/

/-- The messages of a stream that are whole in the bytes received so far. -/
def arrived : List Resp → ByteString → List Resp
  | [], _ => []
  | m :: ms, bs =>
      if m.render <+: bs then m :: arrived ms (bs.drop m.render.length) else []

/-- The bytes received end between messages, or inside the header line of one. -/
def CleanCut (ms : List Resp) (bs : ByteString) : Prop :=
  ∃ whole pending part, ms = whole ++ pending ∧ bs = Resp.renderAll whole ++ part ∧
    find part CRLF = none

/-- The rounds without bytes come at clean cuts, when `bs` is what arrives first. -/
def CleanCuts (ms : List Resp) (bs : ByteString) (script : List Round) : Prop :=
  ∀ before o rest, script = before ++ o :: rest → o.bringsBytes = false →
    CleanCut ms (bs ++ delivered before)

theorem find_render_ne_none (m : Resp) (tail : ByteString) :
    find (m.render ++ tail) CRLF ≠ none := by
  intro absent
  have nowhere := find_eq_none_iff.mp absent m.header.length
    (by rw [Resp.render_eq]; simp)
  refine nowhere ?_
  rw [Resp.render_eq, List.append_assoc, List.append_assoc, List.drop_left]
  exact List.prefix_append _ _

/-- A cut behind the first message is a cut of the other messages. -/
theorem CleanCut.tail {m : Resp} {ms : List Resp} {bs : ByteString}
    (cut : CleanCut (m :: ms) (m.render ++ bs)) : CleanCut ms bs := by
  obtain ⟨whole, pending, part, split, received, noLine⟩ := cut
  cases whole with
  | nil =>
      rw [Resp.renderAll_nil, List.nil_append] at received
      rw [← received] at noLine
      exact absurd noLine (find_render_ne_none m bs)
  | cons first whole =>
      cases split
      rw [Resp.renderAll_cons, List.append_assoc, List.append_cancel_left_eq] at received
      exact ⟨whole, pending, part, rfl, received, noLine⟩

/-- A cut inside the first message is inside its header line. -/
theorem CleanCut.noLine {m : Resp} {ms : List Resp} {bs : ByteString}
    (cut : CleanCut (m :: ms) bs) (short : bs.length < m.render.length) :
    find bs CRLF = none := by
  obtain ⟨whole, pending, part, split, received, noLine⟩ := cut
  cases whole with
  | nil =>
      rw [Resp.renderAll_nil, List.nil_append] at received
      exact received ▸ noLine
  | cons first whole =>
      cases split
      rw [received, Resp.renderAll_cons, List.append_assoc, List.length_append] at short
      omega

theorem CleanCut.nil {bs : ByteString} (cut : CleanCut [] bs) : find bs CRLF = none := by
  obtain ⟨whole, pending, part, split, received, noLine⟩ := cut
  obtain ⟨rfl, -⟩ := List.append_eq_nil_iff.mp split.symm
  exact received ▸ noLine

theorem CleanCuts.after {ms : List Resp} {bs : ByteString} {script : List Round}
    (clean : CleanCuts ms bs script) : CleanCuts ms (bs ++ incoming script) (after script) := by
  obtain ⟨front, split, bytes⟩ := exists_front script
  intro before o rest shape silent
  rw [List.append_assoc, ← bytes, ← delivered_append]
  exact clean (front ++ before) o rest (by rw [List.append_assoc, ← shape]; exact split) silent

theorem CleanCuts.tail {m : Resp} {ms : List Resp} {bs : ByteString} {script : List Round}
    (clean : CleanCuts (m :: ms) (m.render ++ bs) script) : CleanCuts ms bs script := by
  intro before o rest shape silent
  have cut := clean before o rest shape silent
  rw [List.append_assoc] at cut
  exact cut.tail

/-! ## No message is lost -/

/-- One call that finds a whole message. -/
theorem readReply_of_whole {m : Resp} (wellFormed : m.WellFormed) {script : List Round}
    {c : Conn} (up : c.connected = true) {tail : ByteString}
    (arrives : arriving script c = m.render ++ tail) :
    ∃ c' script', readReply script c = .returned true m.toReply c' script' ∧
      arriving script' c' = tail ∧ after script' = after script ∧ c'.connected = true := by
  have enough : m.render.length ≤ available script c + 1 := by
    have less := length_arriving_le script c
    rw [arrives, List.length_append] at less
    omega
  obtain ⟨c', script', returned, left, same, connected⟩ :=
    parseReply_of_whole wellFormed enough script c tail arrives
  refine ⟨c', script', ?_, left, same, connected.trans up⟩
  rw [readReply, if_pos up]
  exact returned

/-- One call that finds no whole message, where the cut is clean: it waits, or it loses
nothing. -/
theorem readReply_of_part {ms : List Resp} (wellFormed : ∀ m ∈ ms, m.WellFormed)
    {script : List Round} {c : Conn} (up : c.connected = true)
    (stream : arriving script c <+: Resp.renderAll ms)
    (part : ∀ m ∈ ms.head?, (arriving script c).length < m.render.length) :
    (after script = [] → readReply script c = .waiting) ∧
      ∀ o rest, after script = o :: rest → o.keepsOpen = true →
        CleanCut ms (arriving script c) → ∃ c', readReply script c =
          .returned false .default c' rest ∧ c'.unread = arriving script c ∧
          c'.connected = true := by
  have small := Nat.lt_succ_of_le (length_arriving_le script c)
  rw [readReply, if_pos up]
  constructor
  · intro ended
    cases ms with
    | nil =>
        have blank : arriving script c = [] := List.prefix_nil.mp stream
        exact (parseReply_of_noLine _ (by rw [blank]; rfl)).1 ended
    | cons m ms =>
        have short := part m rfl
        have cut : arriving script c <+: m.render :=
          List.prefix_of_prefix_length_le stream (List.prefix_append _ _) (Nat.le_of_lt short)
        exact (parseReply_of_part (wellFormed m List.mem_cons_self) cut short small).1 ended
  · intro o rest more keeps clean
    have noLine : find (arriving script c) CRLF = none := by
      cases ms with
      | nil => exact clean.nil
      | cons m ms => exact clean.noLine (part m rfl)
    obtain ⟨c', gave, kept⟩ := (parseReply_of_noLine (available script c) noLine).2 o rest more
    obtain ⟨unread, connected⟩ := kept keeps
    exact ⟨c', gave, unread, connected.trans up⟩

theorem arrived_of_part {ms : List Resp} {bs : ByteString}
    (part : ∀ m ∈ ms.head?, bs.length < m.render.length) : arrived ms bs = [] := by
  cases ms with
  | nil => rfl
  | cons m ms => exact if_neg fun whole => absurd (part m rfl) (Nat.not_lt.mpr whole.length_le)

theorem arrived_cons (m : Resp) (ms : List Resp) (bs : ByteString) :
    arrived (m :: ms) (m.render ++ bs) = m :: arrived ms bs := by
  rw [arrived, if_pos (List.prefix_append _ _), List.drop_left]

/-- The loop from any point of the stream. -/
theorem listens_of_cleanCuts {ms : List Resp} (wellFormed : ∀ m ∈ ms, m.WellFormed)
    {script : List Round} {c : Conn} (up : c.connected = true)
    (stays : ∀ o ∈ after script, o.keepsOpen = true)
    (stream : arriving script c ++ delivered (after script) <+: Resp.renderAll ms)
    (clean : CleanCuts ms (arriving script c) (after script)) :
    Listens c script
      ((arrived ms (arriving script c ++ delivered (after script))).map Resp.toReply) := by
  -- Each call reports a message, or passes a round without bytes.
  induction size : ms.length + (after script).length using Nat.strong_induction_on
    generalizing ms c script with
  | _ size ih =>
      have here : arriving script c <+: Resp.renderAll ms := (List.prefix_append _ _).trans stream
      by_cases whole : ∃ m ∈ ms.head?, m.render.length ≤ (arriving script c).length
      · obtain ⟨m, first, long⟩ := whole
        obtain ⟨ms, rfl⟩ := List.head?_eq_some_iff.mp first
        obtain ⟨tail, split⟩ :=
          List.prefix_of_prefix_length_le (List.prefix_append _ _) here long
        rw [← split] at stream clean ⊢
        obtain ⟨c', script', read, left, same, connected⟩ :=
          readReply_of_whole (wellFormed m List.mem_cons_self) up split.symm
        rw [List.append_assoc, arrived_cons, List.map_cons]
        refine .message up read ?_
        rw [Resp.renderAll_cons, List.append_assoc, List.prefix_append_right_inj] at stream
        rw [← left, ← same] at stream ⊢
        refine ih _ ?_ (fun m' later => wellFormed m' (List.mem_cons_of_mem m later)) connected
          (same ▸ stays) stream (by rw [left, same]; exact clean.tail) rfl
        rw [← size, same, List.length_cons]
        omega
      · have part : ∀ m ∈ ms.head?, (arriving script c).length < m.render.length :=
          fun m first => Nat.lt_of_not_le fun long => whole ⟨m, first, long⟩
        obtain ⟨waits, passes⟩ := readReply_of_part wellFormed up here part
        rcases after_cases script with ended | ⟨o, rest, more, silent⟩
        · rw [ended, delivered, List.append_nil, arrived_of_part part]
          exact .waiting up (waits ended)
        · have cut := clean [] o rest more silent
          rw [delivered, List.append_nil] at cut
          obtain ⟨c', read, unread, connected⟩ := passes o rest more (stays o (by simp [more])) cut
          have same : arriving rest c' ++ delivered (after rest) =
              arriving script c ++ delivered (after script) := by
            obtain ⟨bs, rfl⟩ | ⟨-, -, -, skipped⟩ := o.received_or_silent
            · cases silent
            · rw [arriving, unread, List.append_assoc, incoming_append_delivered, more, skipped]
          obtain ⟨front, split, -⟩ := exists_front rest
          rw [← same] at stream ⊢
          refine .nothing up read (ih _ ?_ wellFormed connected ?_ stream ?_ rfl)
          · have shorter := congrArg List.length split
            rw [List.length_append] at shorter
            rw [← size, more, List.length_cons]
            omega
          · intro o' mem
            refine stays o' ?_
            rw [more, split]
            exact List.mem_cons_of_mem o (List.mem_append_right front mem)
          · rw [more] at clean
            have later : CleanCuts ms (arriving script c) rest := by
              intro before o' rest' shape silent'
              have cut := clean (o :: before) o' rest' (congrArg _ shape) silent'
              obtain ⟨bs, rfl⟩ | ⟨-, -, -, skipped⟩ := o.received_or_silent
              · cases silent
              · rwa [skipped] at cut
            have there := later.after
            rwa [← unread] at there

/-- **No message is lost or garbled** while the connection stays up and every round without
bytes comes at a clean cut: the loop reports exactly the messages that have arrived, in their
order. -/
theorem listens_iff {ms : List Resp} (wellFormed : ∀ m ∈ ms, m.WellFormed)
    {script : List Round} {c : Conn} (up : c.connected = true)
    (stays : ∀ o ∈ script, o.keepsOpen = true)
    (stream : c.unread ++ delivered script <+: Resp.renderAll ms)
    (clean : CleanCuts ms c.unread script) (replies : List RedisReply) :
    Listens c script replies ↔
      replies = (arrived ms (c.unread ++ delivered script)).map Resp.toReply := by
  have same : arriving script c ++ delivered (after script) = c.unread ++ delivered script := by
    rw [arriving, List.append_assoc, incoming_append_delivered]
  obtain ⟨front, split, -⟩ := exists_front script
  have listens := listens_of_cleanCuts wellFormed up
    (fun o mem => stays o (split ▸ List.mem_append_right front mem)) (same ▸ stream) clean.after
  rw [same] at listens
  exact ⟨fun other => other.unique listens, fun eq => eq ▸ listens⟩

/-- When everything has been received, every message has arrived. -/
theorem arrived_renderAll (ms : List Resp) : arrived ms (Resp.renderAll ms) = ms := by
  induction ms with
  | nil => rfl
  | cons m ms ih => rw [Resp.renderAll_cons, arrived_cons, ih]

/-! ## A purge in two pieces -/

/-- A connection with nothing in its buffer. -/
def Conn.fresh : Conn where
  connected := true
  rbuf := []
  rpos := 0
  inside := Conn.inside_nil

/-- A purge of `/a`. -/
def purgeOfA : Resp := publication (bytes "edgecache:purge") (bytes "/a")

/-- The bytes of that purge, in two pieces with a timeout between them and one after them. -/
def cutAt (n : ℕ) : List Round :=
  [.received (purgeOfA.render.take n), .timeout, .received (purgeOfA.render.drop n), .timeout]

/-- Cut inside its header line it is received. -/
theorem listens_cutAt_three : Listens Conn.fresh (cutAt 3) [purgeOfA.toReply] := by
  have wellFormed : ∀ m ∈ [purgeOfA], m.WellFormed := by
    intro m mem
    rw [List.mem_singleton.mp mem]
    refine ⟨by decide, Resp.allWellFormed_iff.mpr fun m' mem' => ?_⟩
    simp only [List.mem_cons, List.not_mem_nil, or_false] at mem'
    rcases mem' with rfl | rfl | rfl
    · exact show (bytes "message").length < 2 ^ 63 by decide
    · exact show (bytes "edgecache:purge").length < 2 ^ 63 by decide
    · exact show (bytes "/a").length < 2 ^ 63 by decide
  have stays : ∀ o ∈ cutAt 3, o.keepsOpen = true := by decide +kernel
  have whole : Conn.fresh.unread ++ delivered (cutAt 3) = Resp.renderAll [purgeOfA] := by
    decide +kernel
  have clean : CleanCuts [purgeOfA] Conn.fresh.unread (cutAt 3) := by
    intro before o rest split silent
    rcases before with _ | ⟨o₁, _ | ⟨o₂, _ | ⟨o₃, _ | ⟨o₄, before⟩⟩⟩⟩
    · cases split
      cases silent
    · cases split
      exact ⟨[], [purgeOfA], purgeOfA.render.take 3, rfl, by decide +kernel, by decide +kernel⟩
    · cases split
      cases silent
    · cases split
      exact ⟨[purgeOfA], [], [], rfl, by decide +kernel, by decide +kernel⟩
    · simp [cutAt] at split
  refine (listens_iff wellFormed rfl stays (whole ▸ List.prefix_refl _) clean _).mpr ?_
  rw [whole, arrived_renderAll]
  rfl

set_option maxRecDepth 4000 in
/-- Cut behind its header line it is lost, and its elements are taken for messages. -/
theorem listens_cutAt_four :
    Listens Conn.fresh (cutAt 4)
      [.text .bulk (bytes "message"), .text .bulk (bytes "edgecache:purge"),
        .text .bulk (bytes "/a")] :=
  .nothing rfl rfl (.message rfl rfl (.message rfl rfl (.message rfl rfl
    (.nothing rfl rfl (.waiting rfl rfl)))))

theorem not_listens_cutAt_four : ¬ Listens Conn.fresh (cutAt 4) [purgeOfA.toReply] := by
  intro whole
  have same := congrArg List.length (whole.unique listens_cutAt_four)
  cases same

end EdgeCache
