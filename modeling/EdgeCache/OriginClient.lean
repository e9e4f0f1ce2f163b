import EdgeCache.Http

/-!
# The origin client

`HttpOriginClient::fetch` writes one HTTP/1.0 request and reads the answer.
What it sends is a function of the request and of the target host; the answer is
an `OriginResult`, which the rest of the proxy takes as it comes.
-/

namespace EdgeCache

/-- `OriginResult`. -/
structure OriginResult where
  ok : Bool
  timedOut : Bool
  response : HttpResponse
  error : ByteString
  deriving DecidableEq

/-- A successful `OriginResult`. -/
def OriginResult.success (response : HttpResponse) : OriginResult where
  ok := true
  timedOut := false
  response := response
  error := []

namespace HttpOriginClient

/-- The request headers that are not forwarded, compared with their case. -/
def hopHeaders : List ByteString :=
  [bytes "Host", bytes "Connection", bytes "Keep-Alive", bytes "Proxy-Connection",
    bytes "Transfer-Encoding", bytes "Content-Length"]

/-- `"\r\n"`. -/
def crlf : ByteString := [CR, LF]

/-- The bytes `HttpOriginClient::fetch` sends for a request. -/
def requestBytes (r : HttpRequest) (host : ByteString) : ByteString :=
  r.method ++ bytes " " ++ r.target ++ bytes " HTTP/1.0" ++ crlf ++
    bytes "Host: " ++ host ++ crlf ++
    ((r.headers.entries.filter fun kv => kv.1 ∉ hopHeaders).map fun kv =>
      kv.1 ++ bytes ": " ++ kv.2 ++ crlf).flatten ++
    bytes "X-Forwarded-Proto: http" ++ crlf ++
    bytes "Connection: close" ++ crlf ++ crlf ++ r.body

end HttpOriginClient

end EdgeCache
