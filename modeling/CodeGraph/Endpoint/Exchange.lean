import CodeGraph.Json.Parser
import CodeGraph.Text.Character

/-!
# Exchanges with an endpoint

An endpoint is asked by posting a JSON document to it and answers with a status and a body, or
cannot be reached. `Status.phrase?` gives the standard phrases of statuses.
-/

namespace CodeGraph.Endpoint

/-- A document to be posted. -/
structure Request where
  url : String
  /-- What kind of answer is asked for; any kind if absent. -/
  accept : Option String
  token : Option String
  body : Json

/-- The header by which a request shows its token. -/
def Request.authorization? (r : Request) : Option String :=
  r.token.map fun token => Text.trimmed ("Bearer " ++ token)

structure Response where
  status : Nat
  body : String
deriving DecidableEq, Inhabited

/-- Whether a status says that the request succeeded. -/
def Response.isSuccess (r : Response) : Bool := 200 ≤ r.status && r.status < 300

/-- A way to send requests; a reason is given if the endpoint cannot be reached. -/
abbrev Channel (m : Type → Type) := Request → m (Except String Response)

namespace Status

/-- The standard phrases. -/
def phrases : List (Nat × String) := [
  (100, "Continue"), (101, "Switching Protocols"), (102, "Processing"), (103, "Early Hints"),
  (200, "OK"), (201, "Created"), (202, "Accepted"), (203, "Non Authoritative Information"),
  (204, "No Content"), (205, "Reset Content"), (206, "Partial Content"), (207, "Multi-Status"),
  (208, "Already Reported"), (226, "IM Used"),
  (300, "Multiple Choices"), (301, "Moved Permanently"), (302, "Found"), (303, "See Other"),
  (304, "Not Modified"), (305, "Use Proxy"), (307, "Temporary Redirect"),
  (308, "Permanent Redirect"),
  (400, "Bad Request"), (401, "Unauthorized"), (402, "Payment Required"), (403, "Forbidden"),
  (404, "Not Found"), (405, "Method Not Allowed"), (406, "Not Acceptable"),
  (407, "Proxy Authentication Required"), (408, "Request Timeout"), (409, "Conflict"),
  (410, "Gone"), (411, "Length Required"), (412, "Precondition Failed"),
  (413, "Payload Too Large"), (414, "URI Too Long"), (415, "Unsupported Media Type"),
  (416, "Range Not Satisfiable"), (417, "Expectation Failed"), (418, "I'm a teapot"),
  (421, "Misdirected Request"), (422, "Unprocessable Entity"), (423, "Locked"),
  (424, "Failed Dependency"), (425, "Too Early"), (426, "Upgrade Required"),
  (428, "Precondition Required"), (429, "Too Many Requests"),
  (431, "Request Header Fields Too Large"), (451, "Unavailable For Legal Reasons"),
  (500, "Internal Server Error"), (501, "Not Implemented"), (502, "Bad Gateway"),
  (503, "Service Unavailable"), (504, "Gateway Timeout"), (505, "HTTP Version Not Supported"),
  (506, "Variant Also Negotiates"), (507, "Insufficient Storage"), (508, "Loop Detected"),
  (510, "Not Extended"), (511, "Network Authentication Required")]

def phrase? (status : Nat) : Option String := (phrases.find? (·.1 == status)).map (·.2)

/-- A status as messages show it. -/
def display (status : Nat) : String :=
  toString status ++ " " ++ (phrase? status).getD "<unknown status code>"

end Status

end CodeGraph.Endpoint
