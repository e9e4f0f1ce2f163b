import EdgeCache.RedisConnection

/-!
# Encoding and reading commands

`RedisConnection::encode` writes a command as an array of bulk strings.  Commands written one after
the other are read back one by one, however the bytes are cut on the way
(`parseReplies_of_encode`): every message is read where it stands in what arrives, and what follows
it stays there for the next call.
-/

namespace EdgeCache

namespace RedisConnection

/-- `RedisConnection::encode`. -/
def encode (args : List ByteString) : ByteString :=
  args.foldl (fun out a => out ++ (36 :: toString a.length ++ CRLF) ++ a ++ CRLF)
    (42 :: toString args.length ++ CRLF)

/-- The sizes of a `vector` and of the `string`s in it are less than `2^63`. -/
def Encodable (args : List ByteString) : Prop :=
  args.length < 2 ^ 63 ∧ ∀ a ∈ args, a.length < 2 ^ 63

/-- The message a command is. -/
def command (args : List ByteString) : Resp := .array (args.map .bulk)

/-- The reply that carries the arguments of a command. -/
def asReply (args : List ByteString) : RedisReply := .mk .array [] 0 (args.map (.text .bulk))

theorem wellFormed_command {args : List ByteString} (encodable : Encodable args) :
    (command args).WellFormed := by
  refine ⟨by simpa using encodable.1, Resp.allWellFormed_iff.mpr fun m mem => ?_⟩
  obtain ⟨a, inside, rfl⟩ := List.mem_map.mp mem
  exact encodable.2 a inside

theorem toReply_command (args : List ByteString) : (command args).toReply = asReply args := by
  rw [command, Resp.toReply, Resp.toReplies_eq_map, List.map_map]
  rfl

/-- **`encode` renders the message.** -/
theorem render_command (args : List ByteString) : (command args).render = encode args := by
  have appended : ∀ (args : List ByteString) (out : ByteString),
      args.foldl (fun out a => out ++ (36 :: toString a.length ++ CRLF) ++ a ++ CRLF) out =
        out ++ Resp.renderAll (args.map .bulk) := by
    intro args
    induction args with
    | nil => intro out; simp
    | cons a args ih =>
        intro out
        rw [List.foldl_cons, ih, List.map_cons, Resp.renderAll_cons, Resp.render, Resp.header]
        simp only [List.append_assoc]
  rw [encode, appended, command, Resp.render, Resp.header, List.length_map]
  simp only [List.append_assoc]

/-- Successive calls of `parseReply`, each into a fresh reply; `none` where one of them does not
return `true`. -/
def parseReplies : ℕ → List Round → Conn → Option (List RedisReply × Conn × List Round)
  | 0, script, c => some ([], c, script)
  | n + 1, script, c =>
      match parseReply (available script c + 1) script c with
      | .returned true out c script =>
          (parseReplies n script c).map fun (replies, rest) => (out :: replies, rest)
      | _ => none

/-- **Messages that arrive one after the other are read one after the other.** -/
theorem parseReplies_of_whole {ms : List Resp} (wellFormed : ∀ m ∈ ms, m.WellFormed)
    {script : List Round} {c : Conn} {tail : ByteString}
    (arrives : arriving script c = Resp.renderAll ms ++ tail) :
    ∃ c' script', parseReplies ms.length script c = some (ms.map Resp.toReply, c', script') ∧
      arriving script' c' = tail ∧ after script' = after script ∧ c'.connected = c.connected := by
  induction ms generalizing script c with
  | nil => exact ⟨c, script, rfl, arrives, rfl, rfl⟩
  | cons m ms ih =>
      rw [Resp.renderAll_cons, List.append_assoc] at arrives
      have enough : m.render.length ≤ available script c + 1 := by
        have seen := length_arriving_le script c
        rw [arrives, List.length_append] at seen
        omega
      obtain ⟨c₁, script₁, first, left₁, same₁, connected₁⟩ :=
        parseReply_of_whole (wellFormed m List.mem_cons_self) enough script c _ arrives
      obtain ⟨c₂, script₂, others, left₂, same₂, connected₂⟩ :=
        ih (fun m' later => wellFormed m' (List.mem_cons_of_mem m later)) left₁
      refine ⟨c₂, script₂, ?_, left₂, same₂.trans same₁, connected₂.trans connected₁⟩
      rw [List.length_cons, parseReplies, first]
      simp only [others]
      rfl

theorem incoming_chunks (chunks : List ByteString) :
    incoming (chunks.map .received) = chunks.flatten := by
  induction chunks with
  | nil => rfl
  | cons chunk chunks ih => exact congrArg (chunk ++ ·) ih

theorem renderAll_commands (lists : List (List ByteString)) :
    Resp.renderAll (lists.map command) = (lists.map encode).flatten := by
  induction lists with
  | nil => rfl
  | cons args lists ih =>
      rw [List.map_cons, Resp.renderAll_cons, ih, render_command, List.map_cons, List.flatten_cons]

/-- **Reading undoes encoding under any chunking.**  Commands that are encoded one after the other
and arrive in any pieces, the first of them in the buffer already perhaps, are read back by as many
calls, and nothing is left in the buffer. -/
theorem parseReplies_of_encode (lists : List (List ByteString))
    (encodable : ∀ args ∈ lists, Encodable args) (c : Conn) (chunks : List ByteString)
    (arrives : c.unread ++ chunks.flatten = (lists.map encode).flatten) :
    ∃ c' script', parseReplies lists.length (chunks.map .received) c =
        some (lists.map asReply, c', script') ∧ c'.unread = [] := by
  have wellFormed : ∀ m ∈ lists.map command, m.WellFormed := by
    intro m mem
    obtain ⟨args, inside, rfl⟩ := List.mem_map.mp mem
    exact wellFormed_command (encodable args inside)
  have whole : arriving (chunks.map .received) c =
      Resp.renderAll (lists.map command) ++ [] := by
    rw [arriving, incoming_chunks, arrives, renderAll_commands, List.append_nil]
  obtain ⟨c', script', read, left, -⟩ := parseReplies_of_whole wellFormed whole
  refine ⟨c', script', ?_, (List.append_eq_nil_iff.mp left).1⟩
  rw [List.length_map, List.map_map] at read
  rw [read]
  simp only [Function.comp_def, toReply_command]

/-- A command with a line end in an argument, and one without arguments. -/
def twoCommands : List (List ByteString) := [[bytes "GET", bytes "\r\n$*"], []]

/-- Their bytes, cut inside the line ends. -/
def cutChunks : List ByteString :=
  [bytes "*2\r\n$3\r\nGET\r", bytes "\n$4\r\n\r", bytes "\n$*\r\n*0\r", bytes "\n"]

theorem parseReplies_of_encode_cutChunks :
    ∃ c' script', parseReplies 2 (cutChunks.map .received) ⟨true, [], 0, Nat.le_refl 0⟩ =
      some (twoCommands.map asReply, c', script') ∧ c'.unread = [] := by
  have encodable : ∀ args ∈ twoCommands, args.length < 2 ^ 63 ∧ ∀ a ∈ args, a.length < 2 ^ 63 := by
    decide +kernel
  exact parseReplies_of_encode twoCommands encodable _ cutChunks (by decide +kernel)

end RedisConnection

end EdgeCache
