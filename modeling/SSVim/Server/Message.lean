/-
Requests, responses, and the three ways the server builds a response.

Every response has the same two fields and the version of its request.  `prepare`
adds the length of the body; what else it checks concerns fields that no response
of the server has before it.
-/
import SSVim.Text

namespace SSVim
namespace Server

/-- `req_type`, with what the server reads of it. -/
structure Req where
  url : Str
  version : Nat
  body : Str
  deriving DecidableEq, Repr

/-- A request that nothing has been read into. -/
def Req.empty : Req := { url := [], version := 0, body := [] }

structure Response where
  status : Nat
  reason : Str
  version : Nat
  fields : List (Str × Str)
  body : Str
  deriving DecidableEq, Repr

def headerValueContentTypeJSON : Str := lit "application/json"
def headerKeyContentType : Str := lit "Content-Type"
def headerKeyServer : Str := lit "Server"
def headerValueServer : Str := lit "SSVIM"

def prepare (res : Response) : Response :=
  if res.status / 100 ≠ 1 ∧ res.status ≠ 204 ∧ res.status ≠ 304 then
    { res with fields := res.fields ++ [(lit "Content-Length", lit (toString res.body.length))] }
  else res

/-- A prepared response with the fields that all responses have. -/
def jsonResponse (status : Nat) (reason : Str) (request : Req) (body : Str) : Response :=
  prepare
    { status := status, reason := reason, version := request.version, body := body,
      fields := [(headerKeyServer, headerValueServer),
        (headerKeyContentType, headerValueContentTypeJSON)] }

/-- The response every endpoint builds when it succeeds. -/
def okResponse (request : Req) (body : Str) : Response := jsonResponse 200 [] request body

def errorResponse (request : Req) (message : Str) : Response :=
  jsonResponse 500 (lit "Internal Error") request (lit "An internal error occurred" ++ message)

def notFoundResponse (request : Req) : Response :=
  jsonResponse 404 (lit "Not Found") request
    (lit "Endpoint: '" ++ request.url ++ lit "' not found")

end Server
end SSVim
