import EdgeCache.Lib.Scan
import EdgeCache.Resp

/-!
# The Redis client

`RedisConnection` reads replies from a socket through a buffer.  What the socket does is a
script: the outcome of each round of `poll` and `recv`, in the order the rounds come.  A
read runs through the script until it has what it needs, or until a round brings no bytes;
in the latter case it gives up **with everything it has taken from the buffer already
gone**.

What a read sees is what will have arrived before the next round without bytes
(`arriving`).  All is said in these terms:

* `parseReply_of_whole` — a message that arrives whole is read, and the rest is left.
* `parseReply_of_part` — a message that arrives in part is never reported.
* `parseReply_of_noLine` — where not even its header line arrives, nothing is lost.
* `readReply_ne_exhausted` — the bound on the recursion is never reached.
-/

namespace EdgeCache

open Scan

/-- What one round of `poll` and `recv` brings. -/
inductive Round
  /-- Some bytes. -/
  | received (bs : ByteString)
  /-- `poll` returns `0`. -/
  | timeout
  /-- `EINTR`, or nothing to `recv` after all. -/
  | interrupted
  /-- The peer closed the connection. -/
  | hungUp
  /-- Any other error. -/
  | failed
  deriving DecidableEq

/-- The fields of `RedisConnection` that change: whether `fd_` is a socket, `rbuf_` and
`rpos_`. -/
structure Conn where
  connected : Bool
  rbuf : ByteString
  rpos : ℕ
  inside : rpos ≤ rbuf.length
  deriving DecidableEq

namespace Conn

/-- The bytes that have been received and not yet taken. -/
def unread (c : Conn) : ByteString := c.rbuf.drop c.rpos

theorem length_unread (c : Conn) : c.unread.length = c.rbuf.length - c.rpos := List.length_drop

/-- An empty buffer is read from its start. -/
theorem inside_nil : 0 ≤ ([] : ByteString).length := Nat.le_refl 0

/-- `close`. -/
def close (_ : Conn) : Conn where
  connected := false
  rbuf := []
  rpos := 0
  inside := inside_nil

/-- Take bytes from the buffer. -/
def take (c : Conn) (n : ℕ) (fits : n ≤ c.unread.length) : Conn :=
  { c with
    rpos := c.rpos + n
    inside := by
      have whole := c.inside
      rw [length_unread] at fits
      omega }

@[simp] theorem unread_close (c : Conn) : c.close.unread = [] := rfl

@[simp] theorem connected_close (c : Conn) : c.close.connected = false := rfl

@[simp] theorem unread_take (c : Conn) (n : ℕ) (fits : n ≤ c.unread.length) :
    (c.take n fits).unread = c.unread.drop n := List.drop_drop.symm

@[simp] theorem connected_take (c : Conn) (n : ℕ) (fits : n ≤ c.unread.length) :
    (c.take n fits).connected = c.connected := rfl

/-- `if (rpos_ > 4096)`: drop what has been taken. -/
def compact (c : Conn) : Conn :=
  if 4096 < c.rpos then { c with rbuf := c.rbuf.drop c.rpos, rpos := 0, inside := Nat.zero_le _ }
  else c

@[simp] theorem unread_compact (c : Conn) : c.compact.unread = c.unread := by
  unfold compact
  split <;> simp [unread]

@[simp] theorem connected_compact (c : Conn) : c.compact.connected = c.connected := by
  unfold compact
  split <;> rfl

/-- `rbuf_.append`. -/
def append (c : Conn) (bs : ByteString) : Conn :=
  { c with
    rbuf := c.rbuf ++ bs
    inside := by
      rw [List.length_append]
      exact c.inside.trans (Nat.le_add_right _ _) }

@[simp] theorem unread_append (c : Conn) (bs : ByteString) :
    (c.append bs).unread = c.unread ++ bs := List.drop_append_of_le_length c.inside

@[simp] theorem connected_append (c : Conn) (bs : ByteString) :
    (c.append bs).connected = c.connected := rfl

/-- `fillBuffer`: whether bytes came, and the connection after it. -/
def fillBuffer (c : Conn) : Round → Bool × Conn
  | .received bs => (true, c.compact.append bs)
  | .timeout => (false, c.compact)
  | .interrupted => (false, c.compact)
  | .hungUp => (false, c.compact.close)
  | .failed => (false, c.compact.close)

end Conn

/-! ## Reading -/

/-- What a read does on a script: it stops at the recursion bound of the model, it waits in
`poll` at the end of the script, or it returns. -/
inductive Read (α : Type)
  | exhausted
  | waiting
  | returned (ok : Bool) (out : α) (c : Conn) (script : List Round)

/-- Change what a read returns. -/
def Read.map {α β : Type} (f : α → β) : Read α → Read β
  | .exhausted => .exhausted
  | .waiting => .waiting
  | .returned ok out c script => .returned ok (f out) c script

/-- What is found at the front of a buffer, and how many bytes it takes. -/
structure Found (α : Type) (unread : ByteString) where
  out : α
  used : ℕ
  fits : used ≤ unread.length

/-- The loop of `readLine` and `readN`: fill the buffer until `get` finds in it what is
asked for. -/
def await {α : Type} (get : (unread : ByteString) → Option (Found α unread)) (nothing : α) :
    List Round → Conn → Read α
  | [], c =>
      match get c.unread with
      | some found => .returned true found.out (c.take found.used found.fits) []
      | none => .waiting
  | o :: script, c =>
      match get c.unread with
      | some found => .returned true found.out (c.take found.used found.fits) (o :: script)
      | none =>
          match c.fillBuffer o with
          | (true, c) => await get nothing script c
          | (false, c) => .returned false nothing c script

/-- The line at the front of the buffer. -/
def getLine (unread : ByteString) : Option (Found ByteString unread) :=
  match here : find unread CRLF with
  | some nl => some ⟨unread.take nl, nl + 2, find_add_length_le here⟩
  | none => none

/-- `n` bytes and a line end at the front of the buffer. -/
def getN (n : ℕ) (unread : ByteString) : Option (Found ByteString unread) :=
  if fits : n + 2 ≤ unread.length then some ⟨unread.take n, n + 2, fits⟩ else none

/-- `readLine`. -/
def readLine : List Round → Conn → Read ByteString := await getLine []

/-- `readN`. -/
def readN (n : ℕ) : List Round → Conn → Read ByteString := await (getN n) []

/-- The loop over the elements of an array; those after the one that fails stay as they
were constructed. -/
def readElements (parse : List Round → Conn → Read RedisReply) :
    ℕ → List Round → Conn → Read (List RedisReply)
  | 0, script, c => .returned true [] c script
  | n + 1, script, c =>
      match parse script c with
      | .exhausted => .exhausted
      | .waiting => .waiting
      | .returned false out c script => .returned false (out :: List.replicate n .default) c script
      | .returned true out c script => (readElements parse n script c).map (out :: ·)

/-- The switch of `parseReply` on a header line; `parse` reads an element. -/
def parseLine (parse : List Round → Conn → Read RedisReply) (line : ByteString)
    (script : List Round) (c : Conn) : Read RedisReply :=
  match line with
  | [] => .returned false .default c script
  | type :: rest =>
      if type = 43 then .returned true (.text .status rest) c script
      else if type = 45 then .returned true (.text .error rest) c script
      else if type = 58 then .returned true (.mk .integer [] (strtoll rest) []) c script
      else if type = 36 then
        let len := strtoll rest
        if len < 0 then .returned true .default c script
        else (readN len.toNat script c).map (.text .bulk)
      else if type = 42 then
        let count := strtoll rest
        if count < 0 then .returned true .default c script
        else (readElements parse count.toNat script c).map (.mk .array [] 0)
      else .returned false .default c script

/-- `parseReply`, with a bound on how deep it recurses. -/
def parseReply : ℕ → List Round → Conn → Read RedisReply
  | 0, _, _ => .exhausted
  | fuel + 1, script, c =>
      match readLine script c with
      | .exhausted => .exhausted
      | .waiting => .waiting
      | .returned false _ c script => .returned false .default c script
      | .returned true line c script => parseLine (parseReply fuel) line script c

/-! ## What arrives -/

/-- Whether a round brings bytes. -/
def Round.bringsBytes : Round → Bool
  | .received _ => true
  | _ => false

/-- Whether a round leaves the connection open. -/
def Round.keepsOpen : Round → Bool
  | .hungUp => false
  | .failed => false
  | _ => true

/-- The bytes that come before the first round without any. -/
def incoming : List Round → ByteString
  | .received bs :: script => bs ++ incoming script
  | _ => []

/-- The script from the first round without bytes on. -/
def after : List Round → List Round
  | .received _ :: script => after script
  | script => script

/-- All bytes of a script. -/
def delivered : List Round → ByteString
  | [] => []
  | .received bs :: script => bs ++ delivered script
  | _ :: script => delivered script

theorem Round.received_or_silent (o : Round) : (∃ bs, o = .received bs) ∨
    (o.bringsBytes = false ∧ (∀ script, incoming (o :: script) = []) ∧
      (∀ script, after (o :: script) = o :: script) ∧
      ∀ script, delivered (o :: script) = delivered script) := by
  cases o with
  | received bs => exact Or.inl ⟨bs, rfl⟩
  | _ => exact Or.inr ⟨rfl, fun _ => rfl, fun _ => rfl, fun _ => rfl⟩

/-- What a read that starts here sees: the buffer, and the bytes that come before the first
round without any. -/
def arriving (script : List Round) (c : Conn) : ByteString := c.unread ++ incoming script

theorem incoming_append_delivered (script : List Round) :
    incoming script ++ delivered (after script) = delivered script := by
  induction script with
  | nil => rfl
  | cons o script ih =>
      cases o with
      | received bs => simp [incoming, after, delivered, ih]
      | _ => rfl

theorem delivered_append (front back : List Round) :
    delivered (front ++ back) = delivered front ++ delivered back := by
  induction front with
  | nil => rfl
  | cons o front ih => cases o <;> simp [delivered, ih]

/-- A script starts with the rounds that bring what is incoming. -/
theorem exists_front (script : List Round) :
    ∃ front, script = front ++ after script ∧ delivered front = incoming script := by
  induction script with
  | nil => exact ⟨[], rfl, rfl⟩
  | cons o script ih =>
      cases o with
      | received bs =>
          obtain ⟨front, split, bytes⟩ := ih
          exact ⟨.received bs :: front, congrArg _ split, congrArg _ bytes⟩
      | _ => exact ⟨[], rfl, rfl⟩

/-- How many bytes can be read at most. -/
def available (script : List Round) (c : Conn) : ℕ :=
  c.unread.length + (delivered script).length

theorem length_arriving_le (script : List Round) (c : Conn) :
    (arriving script c).length ≤ available script c := by
  have split := congrArg List.length (incoming_append_delivered script)
  rw [List.length_append] at split
  rw [arriving, available, List.length_append]
  omega

/-- A script is over after its bytes, or the next round brings none. -/
theorem after_cases (script : List Round) :
    after script = [] ∨ ∃ o rest, after script = o :: rest ∧ o.bringsBytes = false := by
  induction script with
  | nil => exact Or.inl rfl
  | cons o script ih =>
      cases o with
      | received bs => exact ih
      | _ => exact Or.inr ⟨_, script, rfl, rfl⟩

/-- `readReply`. -/
def readReply (script : List Round) (c : Conn) : Read RedisReply :=
  if c.connected then parseReply (available script c + 1) script c
  else .returned false .default c script

/-! ## The loop of a read -/

/-- More bytes change nothing about what a read has found. -/
def Stable {α : Type} (get : (unread : ByteString) → Option (Found α unread)) : Prop :=
  ∀ u v found, get u = some found →
    ∃ later, get (u ++ v) = some later ∧ later.out = found.out ∧ later.used = found.used

theorem getLine_eq_some {u : ByteString} {nl : ℕ} (here : find u CRLF = some nl) :
    ∃ found, getLine u = some found ∧ found.out = u.take nl ∧ found.used = nl + 2 := by
  unfold getLine
  split
  · rename_i there
    cases here.symm.trans there
    exact ⟨_, rfl, rfl, rfl⟩
  · rename_i absent
    cases here.symm.trans absent

theorem getLine_eq_none {u : ByteString} (absent : find u CRLF = none) : getLine u = none := by
  unfold getLine
  split
  · rename_i here
    cases absent.symm.trans here
  · rfl

theorem stable_getLine : Stable getLine := by
  intro u v found got
  cases here : find u CRLF with
  | none =>
      rw [getLine_eq_none here] at got
      cases got
  | some nl =>
      have fits : nl + 2 ≤ u.length := find_add_length_le here
      obtain ⟨first, same, out, used⟩ := getLine_eq_some here
      obtain ⟨later, more, out', used'⟩ := getLine_eq_some (find_append v here)
      cases got.symm.trans same
      refine ⟨later, more, ?_, used'.trans used.symm⟩
      rw [out', out, List.take_append_of_le_length (by omega)]

theorem getN_eq_some {n : ℕ} {u : ByteString} (fits : n + 2 ≤ u.length) :
    getN n u = some ⟨u.take n, n + 2, fits⟩ := dif_pos fits

theorem getN_eq_none {n : ℕ} {u : ByteString} (short : u.length < n + 2) : getN n u = none :=
  dif_neg (Nat.not_le.mpr short)

theorem stable_getN (n : ℕ) : Stable (getN n) := by
  intro u v found got
  rcases Nat.lt_or_ge u.length (n + 2) with short | fits
  · rw [getN_eq_none short] at got
    cases got
  · rw [getN_eq_some fits] at got
    cases got
    refine ⟨_, getN_eq_some (by rw [List.length_append]; omega), ?_, rfl⟩
    exact List.take_append_of_le_length (by omega)

section Await

variable {α : Type} {get : (unread : ByteString) → Option (Found α unread)} {nothing : α}

theorem await_of_some {script : List Round} {c : Conn} {found : Found α c.unread}
    (got : get c.unread = some found) :
    await get nothing script c =
      .returned true found.out (c.take found.used found.fits) script := by
  cases script <;> simp only [await, got]

theorem await_cons_of_none {o : Round} {script : List Round} {c : Conn}
    (got : get c.unread = none) :
    await get nothing (o :: script) c =
      match c.fillBuffer o with
      | (true, c) => await get nothing script c
      | (false, c) => .returned false nothing c script := by
  simp only [await, got]

theorem arriving_received (bs : ByteString) (script : List Round) (c : Conn) :
    arriving script (c.fillBuffer (.received bs)).2 = arriving (.received bs :: script) c := by
  simp [arriving, Conn.fillBuffer, incoming]

theorem available_received (bs : ByteString) (script : List Round) (c : Conn) :
    available script (c.fillBuffer (.received bs)).2 = available (.received bs :: script) c := by
  simp [available, Conn.fillBuffer, delivered, Nat.add_assoc]

/-- A read that finds in the buffer what it asks for takes it. -/
theorem arriving_take (script : List Round) (c : Conn) {n : ℕ} (fits : n ≤ c.unread.length) :
    arriving script (c.take n fits) = (arriving script c).drop n ∧
      available script (c.take n fits) + n = available script c := by
  constructor
  · rw [arriving, arriving, Conn.unread_take, List.drop_append_of_le_length fits]
  · rw [available, available, Conn.unread_take, List.length_drop]
    omega

variable (nothing)

/-- **A read that finds what it asks for in what arrives** returns it and leaves the rest. -/
theorem await_of_arriving (stable : Stable get) {script : List Round} {c : Conn}
    {u : ByteString} (arrives : arriving script c = u) {found : Found α u}
    (got : get u = some found) :
    ∃ c' script', await get nothing script c = .returned true found.out c' script' ∧
      arriving script' c' = u.drop found.used ∧ after script' = after script ∧
      c'.connected = c.connected ∧ available script' c' + found.used = available script c := by
  -- What is in the buffer already is found at once.
  have now : ∀ (script : List Round) (c : Conn), arriving script c = u →
      ∀ first, get c.unread = some first →
      ∃ c' script', await get nothing script c = .returned true found.out c' script' ∧
        arriving script' c' = u.drop found.used ∧ after script' = after script ∧
        c'.connected = c.connected ∧
        available script' c' + found.used = available script c := by
    intro script c arrives first there
    obtain ⟨later, same, out, used⟩ := stable _ (incoming script) first there
    change get (arriving script c) = some later at same
    have both : later.out = found.out ∧ later.used = found.used := by
      subst arrives
      cases got.symm.trans same
      exact ⟨rfl, rfl⟩
    obtain ⟨rest, total⟩ := arriving_take script c first.fits
    refine ⟨c.take first.used first.fits, script, ?_, ?_, rfl, rfl, ?_⟩
    · rw [await_of_some there, ← out, both.1]
    · rw [rest, arrives, ← used, both.2]
    · rw [← both.2, used, total]
  induction script generalizing c with
  | nil =>
      cases first : get c.unread with
      | some there => exact now [] c arrives there first
      | none =>
          have whole : c.unread = u := (List.append_nil _).symm.trans arrives
          rw [whole, got] at first
          cases first
  | cons o script ih =>
      cases first : get c.unread with
      | some there => exact now (o :: script) c arrives there first
      | none =>
          cases o with
          | received bs =>
              obtain ⟨c', script', returned, rest, same, connected, total⟩ :=
                ih ((arriving_received bs script c).trans arrives)
              refine ⟨c', script', ?_, rest, same, ?_, ?_⟩
              · rw [await_cons_of_none first]
                exact returned
              · rw [connected]
                simp [Conn.fillBuffer]
              · rw [total, available_received]
          | _ =>
              have whole : c.unread = u := (List.append_nil _).symm.trans arrives
              rw [whole, got] at first
              cases first

/-- A read that does not find in the buffer what it finds nowhere in what arrives. -/
theorem none_of_arriving (stable : Stable get) {script : List Round} {c : Conn}
    (got : get (arriving script c) = none) : get c.unread = none := by
  cases first : get c.unread with
  | none => rfl
  | some there =>
      obtain ⟨later, same, -⟩ := stable _ (incoming script) there first
      cases got.symm.trans same

/-- A round without bytes changes nothing, or closes the connection. -/
theorem fillBuffer_of_silent (c : Conn) {o : Round} (silent : o.bringsBytes = false) :
    ∃ c', c.fillBuffer o = (false, c') ∧ c'.unread.length ≤ c.unread.length ∧
      (o.keepsOpen = true → c'.unread = c.unread ∧ c'.connected = c.connected) := by
  cases o with
  | received bs => cases silent
  | timeout => exact ⟨_, rfl, by simp, by simp⟩
  | interrupted => exact ⟨_, rfl, by simp, by simp⟩
  | hungUp => exact ⟨_, rfl, by simp, fun keeps => by cases keeps⟩
  | failed => exact ⟨_, rfl, by simp, fun keeps => by cases keeps⟩

/-- **A read that does not find what it asks for in what arrives** waits for more, or gives up
at the round that brings no bytes. -/
theorem await_of_none (stable : Stable get) {script : List Round} {c : Conn}
    (got : get (arriving script c) = none) :
    (after script = [] → await get nothing script c = .waiting) ∧
      ∀ o rest, after script = o :: rest → ∃ c', await get nothing script c =
        .returned false nothing c' rest ∧ available rest c' ≤ available script c ∧
        (o.keepsOpen = true → c'.unread = arriving script c ∧ c'.connected = c.connected) := by
  induction script generalizing c with
  | nil =>
      refine ⟨fun _ => ?_, fun o rest more => by cases more⟩
      rw [await, none_of_arriving stable got]
  | cons o script ih =>
      have first := none_of_arriving stable got
      rw [await_cons_of_none first]
      rcases o.received_or_silent with ⟨bs, rfl⟩ | ⟨silent, none_, stops, skipped⟩
      · rw [← arriving_received bs script c] at got
        obtain ⟨waits, gives⟩ := ih got
        refine ⟨waits, fun o rest more => ?_⟩
        obtain ⟨c', returned, less, kept⟩ := gives o rest more
        refine ⟨c', returned, less.trans_eq (available_received bs script c), fun keeps => ?_⟩
        obtain ⟨unread, connected⟩ := kept keeps
        refine ⟨unread.trans (arriving_received bs script c), connected.trans ?_⟩
        simp [Conn.fillBuffer]
      · obtain ⟨c', filled, shorter, kept⟩ := fillBuffer_of_silent c silent
        refine ⟨fun ended => ?_, fun o' rest more => ?_⟩
        · rw [stops script] at ended
          cases ended
        · rw [stops script] at more
          cases more
          rw [filled]
          refine ⟨c', rfl, ?_, fun keeps => ?_⟩
          · rw [available, available, skipped]
            exact Nat.add_le_add_right shorter _
          · rw [arriving, none_, List.append_nil]
            exact kept keeps

end Await

/-! ## Messages that arrive whole -/

/-- A header line that arrives is read. -/
theorem readLine_of_header {m : Resp} (wellFormed : m.WellFormed) {script : List Round}
    {c : Conn} {rest : ByteString} (arrives : arriving script c = m.header ++ (CRLF ++ rest)) :
    ∃ c' script', readLine script c = .returned true m.header c' script' ∧
      arriving script' c' = rest ∧ after script' = after script ∧
      c'.connected = c.connected ∧ available script' c' < available script c := by
  have here : find (m.header ++ (CRLF ++ rest)) CRLF = some m.header.length :=
    find_append_of_notMem (Resp.cr_notMem_header wellFormed) rest
  obtain ⟨found, got, out, used⟩ := getLine_eq_some here
  obtain ⟨c', script', returned, left, same, connected, total⟩ :=
    await_of_arriving [] stable_getLine arrives got
  rw [out, List.take_left] at returned
  rw [used, ← List.drop_drop, List.drop_left] at left
  exact ⟨c', script', returned, left, same, connected, by omega⟩

/-- A parser reads a message: where it arrives whole it is what is returned, and what
follows it is left. -/
def Reads (parse : List Round → Conn → Read RedisReply) (m : Resp) : Prop :=
  ∀ script c tail, arriving script c = m.render ++ tail →
    ∃ c' script', parse script c = .returned true m.toReply c' script' ∧
      arriving script' c' = tail ∧ after script' = after script ∧ c'.connected = c.connected

/-- Elements that arrive whole are read one after the other. -/
theorem readElements_of_whole {parse : List Round → Conn → Read RedisReply} {ms : List Resp}
    (reads : ∀ m ∈ ms, Reads parse m) {script : List Round} {c : Conn} {tail : ByteString}
    (arrives : arriving script c = Resp.renderAll ms ++ tail) :
    ∃ c' script', readElements parse ms.length script c =
        .returned true (Resp.toReplies ms) c' script' ∧
      arriving script' c' = tail ∧ after script' = after script ∧ c'.connected = c.connected := by
  induction ms generalizing script c with
  | nil => exact ⟨c, script, rfl, arrives, rfl, rfl⟩
  | cons m ms ih =>
      rw [Resp.renderAll_cons, List.append_assoc] at arrives
      obtain ⟨c₁, script₁, first, left₁, same₁, connected₁⟩ :=
        reads m List.mem_cons_self script c _ arrives
      obtain ⟨c₂, script₂, others, left₂, same₂, connected₂⟩ :=
        ih (fun m' later => reads m' (List.mem_cons_of_mem m later)) left₁
      refine ⟨c₂, script₂, ?_, left₂, same₂.trans same₁, connected₂.trans connected₁⟩
      rw [List.length_cons, readElements, first]
      simp only [others]
      rfl

theorem strtoll_minus_one : strtoll (bytes "-1") = -1 := by decide +kernel

theorem parseLine_bulk (parse : List Round → Conn → Read RedisReply) {s : ByteString}
    (wellFormed : (Resp.bulk s).WellFormed) (script : List Round) (c : Conn) :
    parseLine parse (Resp.bulk s).header script c =
      (readN s.length script c).map (.text .bulk) := by
  have value : strtoll (toString s.length) = s.length := strtoll_toString wellFormed
  simp only [parseLine, Resp.header, value, Int.toNat_natCast]
  rfl

theorem parseLine_array (parse : List Round → Conn → Read RedisReply) {ms : List Resp}
    (wellFormed : (Resp.array ms).WellFormed) (script : List Round) (c : Conn) :
    parseLine parse (Resp.array ms).header script c =
      (readElements parse ms.length script c).map (.mk .array [] 0) := by
  have value : strtoll (toString ms.length) = ms.length := strtoll_toString wellFormed.1
  simp only [parseLine, Resp.header, value, Int.toNat_natCast]
  rfl

/-- The switch on the header line of a message, where its body arrives whole. -/
theorem parseLine_of_whole {parse : List Round → Conn → Read RedisReply} {m : Resp}
    (wellFormed : m.WellFormed) (reads : ∀ ms, m = .array ms → ∀ m' ∈ ms, Reads parse m')
    {script : List Round} {c : Conn} {tail : ByteString}
    (arrives : arriving script c = m.body ++ tail) :
    ∃ c' script', parseLine parse m.header script c = .returned true m.toReply c' script' ∧
      arriving script' c' = tail ∧ after script' = after script ∧ c'.connected = c.connected := by
  cases m with
  | status s => exact ⟨c, script, rfl, arrives, rfl, rfl⟩
  | error s => exact ⟨c, script, rfl, arrives, rfl, rfl⟩
  | integer n =>
      refine ⟨c, script, ?_, arrives, rfl, rfl⟩
      have value := strtoll_intToString wellFormed.1 wellFormed.2
      simp only [parseLine, Resp.header, value, Resp.toReply]
      rfl
  | bulk s =>
      have arrives' : arriving script c = s ++ (CRLF ++ tail) := by
        rw [arrives, Resp.body, List.append_assoc]
      have enough : s.length + 2 ≤ (s ++ (CRLF ++ tail)).length := by simp
      obtain ⟨c', script', returned, left, same, connected, -⟩ :=
        await_of_arriving [] (stable_getN s.length) arrives' (getN_eq_some enough)
      rw [List.take_left] at returned
      rw [← List.drop_drop, List.drop_left] at left
      refine ⟨c', script', ?_, left, same, connected⟩
      rw [parseLine_bulk parse wellFormed, readN, returned]
      rfl
  | nil =>
      refine ⟨c, script, ?_, arrives, rfl, rfl⟩
      simp only [parseLine, Resp.header, strtoll_minus_one]
      rfl
  | nilArray =>
      refine ⟨c, script, ?_, arrives, rfl, rfl⟩
      simp only [parseLine, Resp.header, strtoll_minus_one]
      rfl
  | array ms =>
      obtain ⟨c', script', returned, left, same, connected⟩ :=
        readElements_of_whole (reads ms rfl) arrives
      refine ⟨c', script', ?_, left, same, connected⟩
      rw [parseLine_array parse wellFormed, returned]
      rfl

/-- **A message that arrives whole is read**, and what follows it is left. -/
theorem parseReply_of_whole {fuel : ℕ} {m : Resp} (wellFormed : m.WellFormed)
    (enough : m.render.length ≤ fuel) : Reads (parseReply fuel) m := by
  induction fuel generalizing m with
  | zero => exact absurd (m.two_le_length_render.trans enough) (by decide)
  | succ fuel ih =>
      intro script c tail arrives
      rw [Resp.render_eq, List.append_assoc, List.append_assoc] at arrives
      obtain ⟨c₁, script₁, line, left₁, same₁, connected₁, -⟩ :=
        readLine_of_header wellFormed arrives
      have reads : ∀ ms, m = .array ms → ∀ m' ∈ ms, Reads (parseReply fuel) m' := by
        rintro ms rfl m' mem
        refine ih (Resp.allWellFormed_iff.mp wellFormed.2 m' mem) ?_
        have shorter := Resp.length_render_le_of_mem mem
        rw [Resp.render_eq] at enough
        simp only [List.length_append, Resp.body, List.length_cons, List.length_nil] at enough
        omega
      obtain ⟨c₂, script₂, returned, left₂, same₂, connected₂⟩ :=
        parseLine_of_whole wellFormed reads left₁
      refine ⟨c₂, script₂, ?_, left₂, same₂.trans same₁, connected₂.trans connected₁⟩
      rw [parseReply, line]
      exact returned

/-! ## Messages that arrive in part -/

/-- A read reports nothing: it waits at the end of the script, and returns `false` if it
returns. -/
def Unreported {α : Type} (read : Read α) (script : List Round) : Prop :=
  (after script = [] → read = .waiting) ∧ ∀ out c script', read ≠ .returned true out c script'

/-- A read that waits at the end of the script, and gives up where a round ends its wait. -/
theorem unreported_of_gives {α : Type} {read : Read α} {nothing : α} {script : List Round}
    (waits : after script = [] → read = .waiting)
    (gives : ∀ o rest, after script = o :: rest → ∃ c, read = .returned false nothing c rest) :
    Unreported read script := by
  refine ⟨waits, fun out c' script' returned => ?_⟩
  rcases after_cases script with ended | ⟨o, rest, more, -⟩
  · rw [waits ended] at returned
    cases returned
  · obtain ⟨c, gave⟩ := gives o rest more
    rw [gave] at returned
    cases returned

theorem Unreported.map {α β : Type} {f : α → β} {read : Read α} {script : List Round}
    (silent : Unreported read script) : Unreported (read.map f) script := by
  refine ⟨fun ended => by rw [silent.1 ended]; rfl, fun out c script' returned => ?_⟩
  cases read with
  | exhausted => cases returned
  | waiting => cases returned
  | returned ok out' c' script'' =>
      cases returned
      exact silent.2 _ _ _ rfl

/-- A loop that does not find what it asks for reports nothing. -/
theorem silent_await {α : Type} {get : (unread : ByteString) → Option (Found α unread)}
    (nothing : α) (stable : Stable get) {script : List Round} {c : Conn}
    (got : get (arriving script c) = none) : Unreported (await get nothing script c) script := by
  obtain ⟨waits, gives⟩ := await_of_none nothing stable got
  exact unreported_of_gives waits fun o rest more => (gives o rest more).imp fun c gave => gave.1

/-- Elements that arrive in part are not reported. -/
theorem silent_readElements {parse : List Round → Conn → Read RedisReply} {ms : List Resp}
    (bound : ℕ) (whole : ∀ m ∈ ms, m.render.length ≤ bound → Reads parse m)
    (part : ∀ m ∈ ms, ∀ script c, arriving script c <+: m.render →
      (arriving script c).length < m.render.length → (arriving script c).length ≤ bound →
      Unreported (parse script c) script)
    {script : List Round} {c : Conn} (cut : arriving script c <+: Resp.renderAll ms)
    (proper : (arriving script c).length < (Resp.renderAll ms).length)
    (small : (arriving script c).length ≤ bound) :
    Unreported (readElements parse ms.length script c) script := by
  induction ms generalizing script c with
  | nil => exact absurd proper (Nat.not_lt_zero _)
  | cons m ms ih =>
      rw [List.length_cons, readElements]
      rw [Resp.renderAll_cons] at cut proper
      rcases Nat.lt_or_ge (arriving script c).length m.render.length with short | long
      · -- The first element is cut.
        obtain ⟨waits, never⟩ := part m List.mem_cons_self script c
          (List.prefix_of_prefix_length_le cut (List.prefix_append _ _) (Nat.le_of_lt short))
          short small
        constructor
        · intro ended
          rw [waits ended]
        · intro out c' script' returned
          cases first : parse script c with
          | exhausted => simp [first] at returned
          | waiting => simp [first] at returned
          | returned ok out₁ c₁ script₁ =>
              cases ok with
              | true => exact never _ _ _ first
              | false => simp [first] at returned
      · -- The first element is whole, and the cut is behind it.
        obtain ⟨tail, split⟩ := List.prefix_of_prefix_length_le (List.prefix_append _ _) cut long
        rw [← split] at cut proper small
        rw [List.length_append] at proper small
        rw [List.length_append] at proper
        obtain ⟨c₁, script₁, first, left, same, -⟩ :=
          whole m List.mem_cons_self (by omega) script c tail split.symm
        have rest := ih (fun m' later => whole m' (List.mem_cons_of_mem m later))
          (fun m' later => part m' (List.mem_cons_of_mem m later))
          (left ▸ (List.prefix_append_right_inj m.render).mp cut) (left ▸ by omega)
          (left ▸ by omega)
        obtain ⟨waits, never⟩ := rest
        rw [first]
        exact Unreported.map ⟨fun ended => waits (same.trans ended), never⟩

/-- The switch on the header line of a message, where its body arrives in part. -/
theorem silent_parseLine {fuel : ℕ} {m : Resp} (wellFormed : m.WellFormed)
    (part : ∀ ms, m = .array ms → ∀ m' ∈ ms, ∀ script c, arriving script c <+: m'.render →
      (arriving script c).length < m'.render.length → (arriving script c).length < fuel →
      Unreported (parseReply fuel script c) script)
    {script : List Round} {c : Conn} (cut : arriving script c <+: m.body)
    (proper : (arriving script c).length < m.body.length)
    (enough : (arriving script c).length < fuel) :
    Unreported (parseLine (parseReply fuel) m.header script c) script := by
  cases m with
  | bulk s =>
      have short : (arriving script c).length < s.length + 2 := by
        rw [Resp.body, List.length_append] at proper
        exact proper
      rw [parseLine_bulk _ wellFormed]
      exact (silent_await [] (stable_getN s.length) (getN_eq_none short)).map
  | array ms =>
      have elements := Resp.allWellFormed_iff.mp wellFormed.2
      have silent : Unreported (readElements (parseReply fuel) ms.length script c) script :=
        silent_readElements (fuel - 1)
          (fun m' mem small => parseReply_of_whole (elements m' mem) (by omega))
          (fun m' mem script c cut short small => part ms rfl m' mem script c cut short (by omega))
          cut proper (by omega)
      rw [parseLine_array _ wellFormed]
      exact silent.map
  | _ => exact absurd proper (Nat.not_lt_zero _)

/-- **Where not even the header line arrives**, nothing is lost: the read waits, or it gives
up with all that arrived still in the buffer. -/
theorem parseReply_of_noLine (fuel : ℕ) {script : List Round} {c : Conn}
    (noLine : find (arriving script c) CRLF = none) :
    (after script = [] → parseReply (fuel + 1) script c = .waiting) ∧
      ∀ o rest, after script = o :: rest → ∃ c', parseReply (fuel + 1) script c =
        .returned false .default c' rest ∧
        (o.keepsOpen = true → c'.unread = arriving script c ∧ c'.connected = c.connected) := by
  obtain ⟨waits, gives⟩ :=
    await_of_none [] stable_getLine (getLine_eq_none noLine)
  constructor
  · intro ended
    have read : readLine script c = .waiting := waits ended
    rw [parseReply, read]
  · intro o rest more
    obtain ⟨c', gave, -, kept⟩ := gives o rest more
    have read : readLine script c = .returned false [] c' rest := gave
    exact ⟨c', by rw [parseReply, read], kept⟩

/-- **A message that arrives in part is never reported.** -/
theorem parseReply_of_part {fuel : ℕ} {m : Resp} (wellFormed : m.WellFormed)
    {script : List Round} {c : Conn} (cut : arriving script c <+: m.render)
    (proper : (arriving script c).length < m.render.length)
    (enough : (arriving script c).length < fuel) :
    Unreported (parseReply fuel script c) script := by
  induction fuel generalizing m script c with
  | zero => exact absurd enough (Nat.not_lt_zero _)
  | succ fuel ih =>
      have shape : m.render = (m.header ++ CRLF) ++ m.body := by
        rw [Resp.render_eq, List.append_assoc]
      rcases Nat.lt_or_ge (arriving script c).length (m.header ++ CRLF).length with short | long
      · -- The cut is in the header line.
        have noLine : find (arriving script c) CRLF = none := by
          cases found : find (arriving script c) CRLF with
          | none => rfl
          | some j =>
              have whole : find m.render CRLF = some m.header.length := by
                rw [Resp.render_eq]
                exact find_append_of_notMem (Resp.cr_notMem_header wellFormed) m.body
              have fits := find_add_length_le found
              rw [find_of_part cut found whole, ← List.length_append] at fits
              exact absurd fits (Nat.not_le.mpr short)
        obtain ⟨waits, gives⟩ := parseReply_of_noLine fuel noLine
        exact unreported_of_gives waits fun o rest more =>
          (gives o rest more).imp fun c gave => gave.1
      · -- The header line is whole, and the cut is behind it.
        obtain ⟨p, split⟩ := List.prefix_of_prefix_length_le
          (shape ▸ List.prefix_append _ _) cut long
        rw [← split] at cut proper enough
        rw [shape] at cut proper
        have whole : (m.header ++ CRLF ++ m.body).length =
          (m.header ++ CRLF).length + m.body.length := List.length_append
        have here : (m.header ++ CRLF ++ p).length = (m.header ++ CRLF).length + p.length :=
          List.length_append
        have headerSize : 2 ≤ (m.header ++ CRLF).length := by simp
        obtain ⟨c₁, script₁, line, left, same, -⟩ :=
          readLine_of_header wellFormed (split.symm.trans (List.append_assoc _ _ _))
        have part : ∀ ms, m = .array ms → ∀ m' ∈ ms, ∀ script c,
            arriving script c <+: m'.render →
            (arriving script c).length < m'.render.length →
            (arriving script c).length < fuel → Unreported (parseReply fuel script c) script := by
          rintro ms rfl m' mem script c cut proper enough
          exact ih (Resp.allWellFormed_iff.mp wellFormed.2 m' mem) cut proper enough
        obtain ⟨waits, never⟩ := silent_parseLine wellFormed part
          (left ▸ (List.prefix_append_right_inj _).mp cut) (left ▸ by omega) (left ▸ by omega)
        rw [parseReply, line]
        exact ⟨fun ended => waits (same.trans ended), never⟩

/-! ## The bound on the recursion -/

/-- A read ends within its bound and takes no more than there is. -/
def Bounded {α : Type} (read : Read α) (n : ℕ) : Prop :=
  read ≠ .exhausted ∧ ∀ ok out c script, read = .returned ok out c script → available script c ≤ n

theorem Bounded.mono {α : Type} {read : Read α} {n n' : ℕ} (bounded : Bounded read n)
    (le : n ≤ n') : Bounded read n' :=
  ⟨bounded.1, fun ok out c script returned => (bounded.2 ok out c script returned).trans le⟩

theorem Bounded.map {α β : Type} {f : α → β} {read : Read α} {n : ℕ} (bounded : Bounded read n) :
    Bounded (read.map f) n := by
  cases read with
  | exhausted => exact absurd rfl bounded.1
  | waiting => exact ⟨by simp [Read.map], fun ok out c script returned => by cases returned⟩
  | returned ok out c script =>
      refine ⟨by simp [Read.map], fun ok' out' c' script' returned => ?_⟩
      cases returned
      exact bounded.2 _ _ _ _ rfl

theorem bounded_returned {α : Type} {ok : Bool} {out : α} {c : Conn} {script : List Round}
    {n : ℕ} (small : available script c ≤ n) : Bounded (.returned ok out c script) n := by
  refine ⟨by simp, fun ok' out' c' script' returned => ?_⟩
  cases returned
  exact small

theorem bounded_await {α : Type} {get : (unread : ByteString) → Option (Found α unread)}
    (nothing : α) (stable : Stable get) (script : List Round) (c : Conn) :
    Bounded (await get nothing script c) (available script c) := by
  cases got : get (arriving script c) with
  | some found =>
      obtain ⟨c', script', returned, -, -, -, total⟩ := await_of_arriving nothing stable rfl got
      rw [returned]
      exact bounded_returned (by omega)
  | none =>
      obtain ⟨waits, gives⟩ := await_of_none nothing stable got
      rcases after_cases script with ended | ⟨o, rest, more, -⟩
      · rw [waits ended]
        exact ⟨by simp, fun ok out c' script' returned => by cases returned⟩
      · obtain ⟨c', gave, less, -⟩ := gives o rest more
        rw [gave]
        exact bounded_returned less

/-- A line takes at least its end. -/
theorem available_lt_of_readLine {script script' : List Round} {c c' : Conn}
    {line : ByteString} (read : readLine script c = .returned true line c' script') :
    available script' c' < available script c := by
  unfold readLine at read
  cases here : find (arriving script c) CRLF with
  | some nl =>
      obtain ⟨found, got, -, used⟩ := getLine_eq_some here
      obtain ⟨c'', script'', returned, -, -, -, total⟩ :=
        await_of_arriving [] stable_getLine rfl got
      cases read.symm.trans returned
      omega
  | none =>
      exact absurd read ((silent_await [] stable_getLine (getLine_eq_none here)).2 _ _ _)

theorem bounded_readElements {parse : List Round → Conn → Read RedisReply} (bound : ℕ)
    (bounded : ∀ script c, available script c ≤ bound →
      Bounded (parse script c) (available script c)) (n : ℕ) {script : List Round} {c : Conn}
    (small : available script c ≤ bound) :
    Bounded (readElements parse n script c) (available script c) := by
  induction n generalizing script c with
  | zero => exact bounded_returned (Nat.le_refl _)
  | succ n ih =>
      obtain ⟨ends, less⟩ := bounded script c small
      rw [readElements]
      cases first : parse script c with
      | exhausted => exact absurd first ends
      | waiting => exact ⟨by simp, fun ok out c' script' returned => by cases returned⟩
      | returned ok out c₁ script₁ =>
          have step := less _ _ _ _ first
          cases ok with
          | false => exact bounded_returned step
          | true => exact ((ih (step.trans small)).mono step).map

/-- **The bound is never reached**: every nested reply takes at least a line. -/
theorem bounded_parseReply {fuel : ℕ} {script : List Round} {c : Conn}
    (enough : available script c < fuel) :
    Bounded (parseReply fuel script c) (available script c) := by
  induction fuel generalizing script c with
  | zero => exact absurd enough (Nat.not_lt_zero _)
  | succ fuel ih =>
      obtain ⟨ends, less⟩ := bounded_await [] stable_getLine script c
      rw [parseReply]
      cases line : readLine script c with
      | exhausted => exact absurd line ends
      | waiting => exact ⟨by simp, fun ok out c' script' returned => by cases returned⟩
      | returned ok text c₁ script₁ =>
          have step := less _ _ _ _ line
          cases ok with
          | false => exact bounded_returned step
          | true =>
              have strict := available_lt_of_readLine line
              have elements : ∀ n, Bounded (readElements (parseReply fuel) n script₁ c₁)
                  (available script c) := fun n =>
                (bounded_readElements (fuel - 1)
                  (fun script c small => ih (by omega)) n (by omega)).mono step
              simp only [parseLine]
              cases text with
              | nil => exact bounded_returned step
              | cons type rest =>
                  simp only
                  split
                  · exact bounded_returned step
                  · split
                    · exact bounded_returned step
                    · split
                      · exact bounded_returned step
                      · split
                        · split
                          · exact bounded_returned step
                          · exact ((bounded_await [] (stable_getN _) _ _).mono step).map
                        · split
                          · split
                            · exact bounded_returned step
                            · exact (elements _).map
                          · exact bounded_returned step

/-- `readReply` is never cut short by the model. -/
theorem readReply_ne_exhausted (script : List Round) (c : Conn) :
    readReply script c ≠ .exhausted := by
  unfold readReply
  split
  · exact (bounded_parseReply (Nat.lt_succ_self _)).1
  · simp

/-! ## What a read takes from the script -/

/-- **A read takes the front of the script**: the connection stays open unless one of its rounds
closes it, and a read that returns `true` has met rounds with bytes only. -/
def Takes {α : Type} (read : Read α) (script : List Round) (c : Conn) : Prop :=
  ∀ ok out c' script', read = .returned ok out c' script' → ∃ front, script = front ++ script' ∧
    c'.connected = (c.connected && front.all Round.keepsOpen) ∧
    (ok = true → ∀ o ∈ front, o.bringsBytes = true)

section Takes

variable {α β : Type} {read : Read α} {script : List Round} {c : Conn}

theorem takes_exhausted : Takes (.exhausted : Read α) script c :=
  fun _ _ _ _ returned => by cases returned

theorem takes_waiting : Takes (.waiting : Read α) script c :=
  fun _ _ _ _ returned => by cases returned

/-- A read that returns at once takes nothing. -/
theorem takes_returned {ok : Bool} {out : α} {c' : Conn} (same : c'.connected = c.connected) :
    Takes (.returned ok out c' script) script c := by
  intro ok' out' c'' script' returned
  cases returned
  exact ⟨[], rfl, by rw [same, List.all_nil, Bool.and_true], fun _ _ mem => by cases mem⟩

theorem Takes.map {f : α → β} (takes : Takes read script c) : Takes (read.map f) script c := by
  intro ok out c' script' returned
  cases read with
  | exhausted => cases returned
  | waiting => cases returned
  | returned ok₁ out₁ c₁ script₁ =>
      cases returned
      exact takes _ _ _ _ rfl

/-- One read after another takes the front that both take. -/
theorem Takes.andThen {read' : Read β} {out : α} {c₁ : Conn} {script₁ : List Round}
    (takes : Takes read script c) (first : read = .returned true out c₁ script₁)
    (takes' : Takes read' script₁ c₁) : Takes read' script c := by
  intro ok out' c' script' returned
  obtain ⟨front, split, connected, bytes⟩ := takes _ _ _ _ first
  obtain ⟨front', split', connected', bytes'⟩ := takes' _ _ _ _ returned
  refine ⟨front ++ front', by rw [split, split', List.append_assoc], ?_, fun good o mem => ?_⟩
  · rw [connected', connected, List.all_append, Bool.and_assoc]
  · rcases List.mem_append.mp mem with early | late
    · exact bytes rfl o early
    · exact bytes' good o late

/-- A read that fails hands on what it took. -/
theorem Takes.fails {read' : Read β} {out : α} {out' : β} {ok : Bool} {c₁ : Conn}
    {script₁ : List Round} (takes : Takes read script c)
    (first : read = .returned ok out c₁ script₁)
    (same : read' = .returned false out' c₁ script₁) : Takes read' script c := by
  intro ok' out'' c' script' returned
  rw [same] at returned
  cases returned
  obtain ⟨front, split, connected, -⟩ := takes _ _ _ _ first
  exact ⟨front, split, connected, fun h => by cases h⟩

theorem takes_await (get : (unread : ByteString) → Option (Found α unread)) (nothing : α)
    (script : List Round) (c : Conn) : Takes (await get nothing script c) script c := by
  induction script generalizing c with
  | nil =>
      rw [await]
      split
      · exact takes_returned rfl
      · exact takes_waiting
  | cons o script ih =>
      rw [await]
      split
      · exact takes_returned rfl
      · intro ok out c' script' returned
        cases o with
        | received bs =>
            obtain ⟨front, split, connected, bytes⟩ := ih _ _ _ _ _ returned
            refine ⟨.received bs :: front, by rw [split]; rfl, ?_, fun good o mem => ?_⟩
            · rw [connected, Conn.connected_append, Conn.connected_compact]
              rfl
            · rcases List.mem_cons.mp mem with rfl | later
              · rfl
              · exact bytes good o later
        | _ =>
            cases returned
            exact ⟨[_], rfl, by simp [Round.keepsOpen], fun good => by cases good⟩

theorem takes_readElements {parse : List Round → Conn → Read RedisReply}
    (takes : ∀ script c, Takes (parse script c) script c) (n : ℕ) (script : List Round)
    (c : Conn) : Takes (readElements parse n script c) script c := by
  induction n generalizing script c with
  | zero => exact takes_returned rfl
  | succ n ih =>
      rw [readElements]
      cases first : parse script c with
      | exhausted => exact takes_exhausted
      | waiting => exact takes_waiting
      | returned ok out c₁ script₁ =>
          cases ok with
          | false => exact (takes script c).fails first rfl
          | true => exact (takes script c).andThen first (ih script₁ c₁).map

theorem takes_parseLine {parse : List Round → Conn → Read RedisReply}
    (takes : ∀ script c, Takes (parse script c) script c) (line : ByteString)
    (script : List Round) (c : Conn) : Takes (parseLine parse line script c) script c := by
  unfold parseLine
  split
  · exact takes_returned rfl
  · split
    · exact takes_returned rfl
    · split
      · exact takes_returned rfl
      · split
        · exact takes_returned rfl
        · split
          · simp only
            split
            · exact takes_returned rfl
            · exact (takes_await _ _ _ _).map
          · split
            · simp only
              split
              · exact takes_returned rfl
              · exact (takes_readElements takes _ _ _).map
            · exact takes_returned rfl

/-- **`parseReply` takes the front of the script.** -/
theorem takes_parseReply (fuel : ℕ) (script : List Round) (c : Conn) :
    Takes (parseReply fuel script c) script c := by
  induction fuel generalizing script c with
  | zero => exact takes_exhausted
  | succ fuel ih =>
      have first : Takes (readLine script c) script c := takes_await _ _ _ _
      rw [parseReply]
      cases line : readLine script c with
      | exhausted => exact takes_exhausted
      | waiting => exact takes_waiting
      | returned ok text c₁ script₁ =>
          cases ok with
          | false => exact first.fails line rfl
          | true => exact first.andThen line (takes_parseLine ih text script₁ c₁)

end Takes

end EdgeCache
