import EdgeCache.Bytes

/-!
# The Redis protocol

The messages of RESP, the protocol Redis speaks, and their bytes on the wire.  Every
message is a **header line** and what follows it: nothing, the payload of a bulk string, or
the elements of an array.

`RedisReply` is what the client keeps of a message.
-/

namespace EdgeCache

/-- `"\r\n"`. -/
abbrev CRLF : ByteString := [CR, LF]

/-- A message of RESP. -/
inductive Resp
  | status (s : ByteString)
  | error (s : ByteString)
  | integer (n : ℤ)
  | bulk (s : ByteString)
  | nil
  | nilArray
  | array (elements : List Resp)

namespace Resp

/-- The first line of a message, without its line end. -/
def header : Resp → ByteString
  | status s => 43 :: s
  | error s => 45 :: s
  | integer n => 58 :: intToString n
  | bulk s => 36 :: toString s.length
  | nil => 36 :: bytes "-1"
  | nilArray => 42 :: bytes "-1"
  | array ms => 42 :: toString ms.length

mutual

/-- The bytes of a message. -/
def render : Resp → ByteString
  | bulk s => (bulk s).header ++ (CRLF ++ (s ++ CRLF))
  | array ms => (array ms).header ++ (CRLF ++ renderAll ms)
  | status s => (status s).header ++ CRLF
  | error s => (error s).header ++ CRLF
  | integer n => (integer n).header ++ CRLF
  | nil => nil.header ++ CRLF
  | nilArray => nilArray.header ++ CRLF

/-- The bytes of messages one after the other. -/
def renderAll : List Resp → ByteString
  | [] => []
  | m :: ms => m.render ++ renderAll ms

end

mutual

/-- A message that Redis can send: no line break in a line, and numbers and lengths that a
`long long` holds. -/
def WellFormed : Resp → Prop
  | status s => CR ∉ s ∧ LF ∉ s
  | error s => CR ∉ s ∧ LF ∉ s
  | integer n => -2 ^ 63 ≤ n ∧ n < 2 ^ 63
  | bulk s => s.length < 2 ^ 63
  | nil => True
  | nilArray => True
  | array ms => ms.length < 2 ^ 63 ∧ AllWellFormed ms

/-- Messages that Redis can send. -/
def AllWellFormed : List Resp → Prop
  | [] => True
  | m :: ms => WellFormed m ∧ AllWellFormed ms

end

theorem allWellFormed_iff {ms : List Resp} : AllWellFormed ms ↔ ∀ m ∈ ms, m.WellFormed := by
  induction ms with
  | nil => simp [AllWellFormed]
  | cons m ms ih => rw [AllWellFormed, ih, List.forall_mem_cons]

/-- What follows the header line. -/
def body : Resp → ByteString
  | bulk s => s ++ CRLF
  | array ms => renderAll ms
  | _ => []

theorem render_eq (m : Resp) : m.render = m.header ++ (CRLF ++ m.body) := by
  cases m <;> simp [render, body]

@[simp] theorem renderAll_cons (m : Resp) (ms : List Resp) :
    renderAll (m :: ms) = m.render ++ renderAll ms := rfl

@[simp] theorem renderAll_nil : renderAll [] = [] := rfl

theorem two_le_length_render (m : Resp) : 2 ≤ m.render.length := by
  rw [render_eq]
  simp
  omega

/-- An element is shorter than what it is an element of. -/
theorem length_render_le_of_mem {m : Resp} {ms : List Resp} (mem : m ∈ ms) :
    m.render.length ≤ (renderAll ms).length := by
  induction ms with
  | nil => cases mem
  | cons first ms ih =>
      rw [renderAll_cons, List.length_append]
      rcases List.mem_cons.mp mem with rfl | later
      · exact Nat.le_add_right _ _
      · exact (ih later).trans (Nat.le_add_left _ _)

/-- A header line holds no line end. -/
theorem cr_notMem_header {m : Resp} (wellFormed : m.WellFormed) : CR ∉ m.header := by
  have digits : ∀ n : ℤ, CR ∉ intToString n := fun n =>
    notMem_intToString (by decide) (by decide)
  have numeral : ∀ n : ℕ, CR ∉ toString n := fun n => intToString_natCast n ▸ digits n
  cases m with
  | status s => exact List.not_mem_cons_of_ne_of_not_mem (by decide) wellFormed.1
  | error s => exact List.not_mem_cons_of_ne_of_not_mem (by decide) wellFormed.1
  | integer n => exact List.not_mem_cons_of_ne_of_not_mem (by decide) (digits n)
  | bulk s => exact List.not_mem_cons_of_ne_of_not_mem (by decide) (numeral _)
  | nil => decide
  | nilArray => decide
  | array ms => exact List.not_mem_cons_of_ne_of_not_mem (by decide) (numeral _)

end Resp

/-- `RedisReply::Type`. -/
inductive ReplyType
  | nil
  | status
  | error
  | integer
  | bulk
  | array
  deriving DecidableEq

/-- `RedisReply`. -/
inductive RedisReply
  | mk (type : ReplyType) (str : ByteString) (integer : ℤ) (elements : List RedisReply)

namespace RedisReply

/-- `type`. -/
def type : RedisReply → ReplyType
  | mk t _ _ _ => t

/-- `str`. -/
def str : RedisReply → ByteString
  | mk _ s _ _ => s

/-- `integer`. -/
def integer : RedisReply → ℤ
  | mk _ _ n _ => n

/-- `elements`. -/
def elements : RedisReply → List RedisReply
  | mk _ _ _ es => es

/-- A default-constructed `RedisReply`. -/
def default : RedisReply := mk .nil [] 0 []

/-- A reply of the given type that carries a string. -/
def text (t : ReplyType) (s : ByteString) : RedisReply := mk t s 0 []

/-- `isError`. -/
def isError (r : RedisReply) : Bool := r.type == .error

end RedisReply

mutual

/-- What the client keeps of a message. -/
def Resp.toReply : Resp → RedisReply
  | .status s => .text .status s
  | .error s => .text .error s
  | .integer n => .mk .integer [] n []
  | .bulk s => .text .bulk s
  | .nil => .default
  | .nilArray => .default
  | .array ms => .mk .array [] 0 (Resp.toReplies ms)

/-- What the client keeps of messages. -/
def Resp.toReplies : List Resp → List RedisReply
  | [] => []
  | m :: ms => m.toReply :: Resp.toReplies ms

end

theorem Resp.toReplies_eq_map (ms : List Resp) : Resp.toReplies ms = ms.map Resp.toReply := by
  induction ms with
  | nil => rfl
  | cons m ms ih => rw [Resp.toReplies, ih, List.map_cons]

end EdgeCache
