import EdgeCache.Lib.Transition
import EdgeCache.RedisConnection
import EdgeCache.RedisL2Cache

/-!
# The connection of the L2 tier

All calls of `RedisL2Cache::get` and `put`, from whatever thread, take one mutex and share
one connection, so a run is a sequence of calls.  Redis answers the commands of a connection
in order; replies carry no name, so a reply belongs to a command by its place in the stream
alone.

`Link` is the connection with the bytes Redis has answered and not delivered yet.  The
invariant is that **an open connection is quiet between two calls**: nothing is in the buffer
and nothing is owed (`Quiet`).  Every way for a command to fail ends in a closed connection,
and a new one starts quiet.  Hence every reply is the reply to its own command
(`matched_of_run`).
-/

namespace EdgeCache

open Transition

/-! ## Commands -/

/-- What the network and Redis do with one command: whether it is written, what Redis
answers and the values it holds at that moment, and the rounds of `poll` and `recv` until
the call returns. -/
structure Exchange where
  written : Bool
  answer : {m : Resp // m.WellFormed}
  store : ByteString → Option ByteString
  script : List Round

/-- The connection, and what Redis has answered on it that has not been delivered. -/
structure Link where
  conn : Conn
  owed : ByteString

/-- A closed connection. -/
def Link.closed : Link where
  conn := ⟨false, [], 0, Conn.inside_nil⟩
  owed := []

/-- `close`. -/
def Link.close (l : Link) : Link where
  conn := l.conn.close
  owed := []

/-- An error `command` makes itself. -/
def localError (text : ByteString) : RedisReply := .text .error text

/-- `RedisConnection::command`; `none` where the script does not end with the call, or
delivers what Redis did not answer. -/
def Link.command (l : Link) (x : Exchange) : Option (RedisReply × Link) :=
  if l.conn.connected = false then some (localError (bytes "not connected"), l)
  else if x.written = false then some (localError (bytes "write failed"), l.close)
  else
    let owed := l.owed ++ x.answer.val.render
    if delivered x.script <+: owed then
      match parseReply (available x.script l.conn + 1) x.script l.conn with
      | .returned true out c [] => some (out, ⟨c, owed.drop (delivered x.script).length⟩)
      | .returned false out c [] =>
          some (.mk .error (bytes "read failed") out.integer out.elements,
            ⟨c, owed.drop (delivered x.script).length⟩)
      | _ => none
    else none

/-- What the network does with an attempt to connect. -/
structure Connecting where
  reachable : Bool
  auth : Exchange

/-- A command that was issued, and the reply `command` returned for it. -/
structure Issued where
  args : List ByteString
  exchange : Exchange
  reply : RedisReply

/-- `RedisConnection::connect`: whether it succeeded, and the commands it issued. -/
def Link.connect (password : ByteString) (x : Connecting) : Option (Bool × List Issued × Link) :=
  if x.reachable = false then some (false, [], .closed)
  else
    let opened : Link := { Link.closed with conn := ⟨true, [], 0, Conn.inside_nil⟩ }
    if password = [] then some (true, [], opened)
    else
      (opened.command x.auth).map fun (r, l) =>
        let issued := [⟨[bytes "AUTH", password], x.auth, r⟩]
        if r.isError then (false, issued, l.close) else (true, issued, l)

/-! ## Calls -/

/-- The fields of `Config` the L2 tier reads. -/
structure L2Config where
  l2Enabled : Bool
  redisPassword : ByteString
  l2KeyPrefix : ByteString

/-- `keyFor`. -/
def L2Config.keyFor (cfg : L2Config) (cacheKey : ByteString) : ByteString :=
  cfg.l2KeyPrefix ++ cacheKey

/-- What a call meets: an attempt to connect, where it makes one, its own command, and the
clocks. -/
structure L2Env where
  connecting : Connecting
  exchange : Exchange
  wallMs : UInt64
  now : ℤ

/-- A call of the L2 tier. -/
inductive L2Call
  | get (cacheKey : ByteString) (env : L2Env)
  | put (cacheKey : ByteString) (entry : CacheEntry) (ttlSeconds : UInt64) (env : L2Env)

/-- What a call returns, and the commands it issued. -/
structure L2Result where
  found : Option CacheEntry
  issued : List Issued

/-- `ensureConnected_`. -/
def ensureConnected (cfg : L2Config) (l : Link) (x : Connecting) :
    Option (Bool × List Issued × Link) :=
  if l.conn.connected then some (true, [], l) else Link.connect cfg.redisPassword x

/-- The part `get` and `put` share: connect if need be, issue the command, and close the
connection on an error.  `read` is what the call makes of any other reply. -/
def callWith (cfg : L2Config) (l : Link) (env : L2Env) (args : List ByteString)
    (read : RedisReply → Option CacheEntry) : Option (L2Result × Link) :=
  (ensureConnected cfg l env.connecting).bind fun (connected, issued, l) =>
    if connected = false then some (⟨none, issued⟩, l)
    else
      (l.command env.exchange).map fun (r, l) =>
        let issued := issued ++ [⟨args, env.exchange, r⟩]
        if r.isError then (⟨none, issued⟩, l.close) else (⟨read r, issued⟩, l)

/-- `RedisL2Cache::get` and `put`. -/
def L2Call.perform (cfg : L2Config) (l : Link) : L2Call → Option (L2Result × Link)
  | .get cacheKey env =>
      if cfg.l2Enabled = false then some (⟨none, []⟩, l)
      else
        callWith cfg l env [bytes "GET", cfg.keyFor cacheKey] fun r =>
          if r.type = .bulk then RedisL2Cache.decode r.str env.wallMs env.now else none
  | .put cacheKey entry ttlSeconds env =>
      if cfg.l2Enabled = false ∨ ttlSeconds = 0 then some (⟨none, []⟩, l)
      else
        callWith cfg l env [bytes "SET", cfg.keyFor cacheKey,
          RedisL2Cache.serialize entry env.wallMs, bytes "EX", toString ttlSeconds.toNat]
          fun _ => none

/-- The calls as a transition system. -/
def Link.next (cfg : L2Config) (l : Link) (call : L2Call) : Option Link :=
  (call.perform cfg l).map Prod.snd

/-! ## An open connection is quiet -/

/-- **The invariant**: while the connection is open, nothing is in the buffer and nothing is
owed. -/
def Link.Quiet (l : Link) : Prop := l.conn.connected = true → l.conn.unread = [] ∧ l.owed = []

theorem quiet_closed : Link.closed.Quiet := fun up => by cases up

theorem quiet_close (l : Link) : l.close.Quiet := fun up => by cases up

/-- An error made by the client itself. -/
def RedisReply.IsLocal (r : RedisReply) : Prop :=
  r.type = .error ∧
    r.str ∈ [bytes "not connected", bytes "write failed", bytes "read failed"]

/-- **A command on a quiet connection** returns the reply of Redis to it and leaves the
connection quiet, or it returns an error of its own. -/
theorem Link.Quiet.command {l l' : Link} (quiet : l.Quiet) {x : Exchange} {r : RedisReply}
    (issued : l.command x = some (r, l')) :
    (r = x.answer.val.toReply ∧ l'.Quiet) ∨ r.IsLocal := by
  unfold Link.command at issued
  split at issued
  · cases issued
    exact Or.inr ⟨rfl, by simp [localError, RedisReply.text, RedisReply.str]⟩
  · rename_i up
    split at issued
    · cases issued
      exact Or.inr ⟨rfl, by simp [localError, RedisReply.text, RedisReply.str]⟩
    · obtain ⟨blank, settled⟩ := quiet (by simpa using up)
      simp only at issued
      rw [settled, List.nil_append] at issued
      split at issued
      · rename_i lawful
        have arrives : arriving x.script l.conn = incoming x.script := by
          rw [arriving, blank, List.nil_append]
        have cut : arriving x.script l.conn <+: x.answer.val.render := by
          rw [arrives]
          exact (incoming_append_delivered x.script ▸ List.prefix_append _ _).trans lawful
        have small := Nat.lt_succ_of_le (length_arriving_le x.script l.conn)
        rcases Nat.lt_or_ge (arriving x.script l.conn).length x.answer.val.render.length with
          short | long
        · -- The reply does not arrive: nothing is reported.
          obtain ⟨-, never⟩ := parseReply_of_part x.answer.property cut short small
          split at issued
          · rename_i returned
            exact absurd returned (never _ _ _)
          · cases issued
            exact Or.inr ⟨rfl, by simp [RedisReply.str]⟩
          · cases issued
        · -- The reply arrives, and nothing behind it.
          have whole := cut.eq_of_length_le long
          have enough : x.answer.val.render.length ≤ available x.script l.conn + 1 := by
            rw [← whole]
            exact small.le
          obtain ⟨c, script, returned, left, -⟩ :=
            parseReply_of_whole x.answer.property enough x.script l.conn []
              (by rw [whole, List.append_nil])
          rw [returned] at issued
          cases script with
          | cons o script => cases issued
          | nil =>
              cases issued
              refine Or.inl ⟨rfl, fun _ => ⟨?_, ?_⟩⟩
              · exact (List.append_nil _).symm.trans left
              · have used : x.answer.val.render <+: delivered x.script := by
                  rw [← whole, arrives]
                  exact incoming_append_delivered x.script ▸ List.prefix_append _ _
                exact List.drop_eq_nil_of_le used.length_le
      · cases issued

/-! ## Every reply is the reply to its own command -/

/-- A reply that belongs to its command: the server's reply to it, or an error of the
client's own. -/
def Issued.Matched (i : Issued) : Prop :=
  i.reply = i.exchange.answer.val.toReply ∨ i.reply.IsLocal

theorem RedisReply.IsLocal.isError {r : RedisReply} (own : r.IsLocal) : r.isError = true := by
  simp [RedisReply.isError, own.1]

/-- A command on a quiet connection is matched. -/
theorem Link.Quiet.matched {l l' : Link} (quiet : l.Quiet) {x : Exchange} {r : RedisReply}
    (issued : l.command x = some (r, l')) (args : List ByteString) :
    Issued.Matched ⟨args, x, r⟩ :=
  (quiet.command issued).imp_left And.left

/-- Closing the connection on an error leaves it quiet. -/
theorem Link.Quiet.settle {l l' : Link} (quiet : l.Quiet) {x : Exchange} {r : RedisReply}
    (issued : l.command x = some (r, l')) : (if r.isError then l'.close else l').Quiet := by
  split
  · exact quiet_close l'
  · rename_i fine
    obtain ⟨-, kept⟩ | own := quiet.command issued
    · exact kept
    · exact absurd own.isError fine

/-- **Connecting**, with its `AUTH`, yields a quiet connection, and the reply to `AUTH` is
matched. -/
theorem quiet_of_connect {password : ByteString} {x : Connecting} {up : Bool}
    {issued : List Issued} {l : Link} (connected : Link.connect password x = some (up, issued, l)) :
    l.Quiet ∧ ∀ i ∈ issued, i.Matched := by
  unfold Link.connect at connected
  split at connected
  · cases connected
    exact ⟨quiet_closed, by simp⟩
  · have opened : ({ Link.closed with conn := ⟨true, [], 0, Conn.inside_nil⟩ } : Link).Quiet :=
      fun _ => ⟨rfl, rfl⟩
    simp only at connected
    split at connected
    · cases connected
      exact ⟨opened, by simp⟩
    · rw [Option.map_eq_some_iff] at connected
      obtain ⟨⟨r, l'⟩, auth, returned⟩ := connected
      have own := opened.matched auth [bytes "AUTH", password]
      have settled := opened.settle auth
      simp only at returned
      split at returned
      · rename_i failed
        cases returned
        rw [if_pos failed] at settled
        exact ⟨settled, by simpa using own⟩
      · rename_i fine
        cases returned
        rw [if_neg fine] at settled
        exact ⟨settled, by simpa using own⟩

/-- `ensureConnected_` keeps the connection quiet. -/
theorem Link.Quiet.ensureConnected {cfg : L2Config} {l l' : Link} (quiet : l.Quiet)
    {x : Connecting} {up : Bool} {issued : List Issued}
    (ensured : ensureConnected cfg l x = some (up, issued, l')) :
    l'.Quiet ∧ ∀ i ∈ issued, i.Matched := by
  unfold EdgeCache.ensureConnected at ensured
  split at ensured
  · cases ensured
    exact ⟨quiet, by simp⟩
  · exact quiet_of_connect ensured

/-- **One call** keeps the connection quiet, its replies are matched, and what it returns
it reads off the server's reply to its own command. -/
theorem Link.Quiet.callWith {cfg : L2Config} {l l' : Link} (quiet : l.Quiet) {env : L2Env}
    {args : List ByteString} {read : RedisReply → Option CacheEntry} {result : L2Result}
    (called : callWith cfg l env args read = some (result, l')) :
    l'.Quiet ∧ (∀ i ∈ result.issued, i.Matched) ∧
      ∀ e, result.found = some e → read env.exchange.answer.val.toReply = some e := by
  unfold EdgeCache.callWith at called
  rw [Option.bind_eq_some_iff] at called
  obtain ⟨⟨up, issued, l₁⟩, ensured, called⟩ := called
  obtain ⟨quiet₁, matched⟩ := quiet.ensureConnected ensured
  simp only at called
  split at called
  · cases called
    exact ⟨quiet₁, matched, by simp⟩
  · rw [Option.map_eq_some_iff] at called
    obtain ⟨⟨r, l₂⟩, replied, returned⟩ := called
    have settled := quiet₁.settle replied
    have both : ∀ i ∈ issued ++ [⟨args, env.exchange, r⟩], i.Matched := by
      intro i mem
      rcases List.mem_append.mp mem with before | last
      · exact matched i before
      · rw [List.mem_singleton.mp last]
        exact quiet₁.matched replied args
    simp only at returned
    split at returned
    · rename_i failed
      cases returned
      rw [if_pos failed] at settled
      exact ⟨settled, both, by simp⟩
    · rename_i fine
      cases returned
      rw [if_neg fine] at settled
      refine ⟨settled, both, fun e found => ?_⟩
      obtain ⟨same, -⟩ | own := quiet₁.command replied
      · exact same ▸ found
      · exact absurd own.isError fine

/-- Redis answers `GET` with a bulk string only where it holds that value for the key. -/
def Exchange.Truthful (x : Exchange) (key : ByteString) : Prop :=
  ∀ value, x.answer.val = .bulk value → x.store key = some value

/-- What a call returns is decoded from the value Redis held for its own key. -/
def L2Call.Honest (cfg : L2Config) (result : L2Result) : L2Call → Prop
  | .get cacheKey env =>
      env.exchange.Truthful (cfg.keyFor cacheKey) →
        ∀ e, result.found = some e →
          ∃ blob, env.exchange.store (cfg.keyFor cacheKey) = some blob ∧
            RedisL2Cache.decode blob env.wallMs env.now = some e
  | .put .. => result.found = none

/-- A reply of type `Bulk` is that of a bulk string. -/
theorem Resp.eq_bulk_of_type {m : Resp} (isBulk : m.toReply.type = .bulk) :
    m = .bulk m.toReply.str := by
  cases m <;> first | rfl | cases isBulk

/-- **The step lemma**: a call keeps the connection quiet, and what it returns is its own. -/
theorem Link.Quiet.perform {cfg : L2Config} {l l' : Link} (quiet : l.Quiet) {call : L2Call}
    {result : L2Result} (performed : call.perform cfg l = some (result, l')) :
    l'.Quiet ∧ (∀ i ∈ result.issued, i.Matched) ∧ call.Honest cfg result := by
  cases call with
  | get cacheKey env =>
      simp only [L2Call.perform] at performed
      split at performed
      · cases performed
        exact ⟨quiet, by simp, fun _ e found => by cases found⟩
      · obtain ⟨quiet', matched, reads⟩ := quiet.callWith performed
        refine ⟨quiet', matched, fun truthful e found => ?_⟩
        have decoded := reads e found
        split at decoded
        · rename_i isBulk
          exact ⟨_, truthful _ (Resp.eq_bulk_of_type isBulk), decoded⟩
        · cases decoded
  | put cacheKey entry ttlSeconds env =>
      simp only [L2Call.perform] at performed
      split at performed
      · cases performed
        exact ⟨quiet, by simp, rfl⟩
      · obtain ⟨quiet', matched, reads⟩ := quiet.callWith performed
        refine ⟨quiet', matched, ?_⟩
        cases found : result.found with
        | none => exact found
        | some e => cases reads e found

/-- After every run of calls the connection is quiet. -/
theorem quiet_of_run {cfg : L2Config} {l : Link}
    (run : Steps (Link.next cfg) (fun _ _ => True) Link.closed l) : l.Quiet := by
  refine run.invariant ?_ quiet_closed
  intro l call l' _ taken quiet
  rw [Link.next, Option.map_eq_some_iff] at taken
  obtain ⟨⟨result, l''⟩, performed, rfl⟩ := taken
  exact (quiet.perform performed).1

/-- **No reply is matched to the wrong command.**  After any run of calls, with whatever
failures, the next call gets for each command it issues the server's reply to that very
command or an error of the client's own, and a `get` returns an entry only where it decoded
the value Redis held for its own key. -/
theorem matched_of_run {cfg : L2Config} {l l' : Link}
    (run : Steps (Link.next cfg) (fun _ _ => True) Link.closed l) {call : L2Call}
    {result : L2Result} (performed : call.perform cfg l = some (result, l')) :
    (∀ i ∈ result.issued, i.Matched) ∧ call.Honest cfg result :=
  ((quiet_of_run run).perform performed).2

/-! ### A lookup after one that was cut -/

/-- A tier without a password. -/
def plainL2 : L2Config := ⟨true, [], bytes "l2:"⟩

/-- An entry with the body `y`, fresh for a minute. -/
def pageY : CacheEntry := ⟨200, [], Headers.empty, bytes "y", 0, 60, 0, []⟩

/-- Redis holds a value under `a`, and that entry under `b`. -/
def held (key : ByteString) : Option ByteString :=
  if key = bytes "l2:a" then some (bytes "x")
  else if key = bytes "l2:b" then some (RedisL2Cache.serialize pageY 0)
  else none

/-- A reachable server that asks for no password. -/
def reachable : Connecting := ⟨true, ⟨true, ⟨.nil, trivial⟩, held, []⟩⟩

/-- A lookup of `a` whose reply is cut by an interrupt. -/
def cutLookup : L2Call :=
  .get (bytes "a") ⟨reachable,
    ⟨true, ⟨.bulk (bytes "x"), show (bytes "x").length < 2 ^ 63 by decide⟩, held,
      [.received ((Resp.bulk (bytes "x")).render.take 5), .interrupted]⟩, 0, 0⟩

/-- What a lookup of `b` meets whose reply arrives whole. -/
def wholeEnv : L2Env :=
  ⟨reachable,
    ⟨true, ⟨.bulk (RedisL2Cache.serialize pageY 0),
      show (RedisL2Cache.serialize pageY 0).length < 2 ^ 63 by decide +kernel⟩, held,
      [.received (Resp.bulk (RedisL2Cache.serialize pageY 0)).render]⟩, 0, 0⟩

/-- Whether that lookup finds the entry. -/
def findsPage (l : Link) : Bool :=
  (L2Call.perform plainL2 l (.get (bytes "b") wholeEnv)).any fun r => r.1.found = some pageY

theorem wholeEnv_truthful : wholeEnv.exchange.Truthful (bytes "l2:b") := by
  intro value same
  have bulk : Resp.bulk (RedisL2Cache.serialize pageY 0) = .bulk value := same
  cases bulk
  rfl

theorem matched_wholeLookup :
    ∃ l result l', Steps (Link.next plainL2) (fun _ _ => True) Link.closed l ∧
      L2Call.perform plainL2 l (.get (bytes "b") wholeEnv) = some (result, l') ∧
      (∀ i ∈ result.issued, i.Matched) ∧ result.found = some pageY ∧
      ∃ blob, held (bytes "l2:b") = some blob ∧ RedisL2Cache.decode blob 0 0 = some pageY := by
  have passed : (run (Link.next plainL2) Link.closed [cutLookup]).any findsPage = true := by
    decide +kernel
  obtain ⟨l, ran, passed⟩ := exists_of_run passed
  obtain ⟨⟨result, l'⟩, performed, found⟩ := (Option.any_eq_true _ _).mp passed
  have found := of_decide_eq_true found
  have run := Steps.of_run (meets_true (Link.next plainL2) Link.closed [cutLookup]) ran
  have matched := matched_of_run run performed
  exact ⟨l, result, l', run, performed, matched.1, found,
    matched.2 wholeEnv_truthful pageY found⟩

end EdgeCache
