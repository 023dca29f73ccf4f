import TradingBot.Config.Basic
import TradingBot.Exchange.Api
import TradingBot.Http.Url
import TradingBot.Json.Printer
import TradingBot.Program
import TradingBot.Json.Reader
import TradingBot.Text

/-!
# Asking an exchange over HTTP

**Status codes** (`Http.Status`). A number from 100 to 999. The assigned ones have a reason
(`Http.reason?`). An answer without success is a transient error if the network settings excuse its
code or a fragment of its body, and a final one otherwise (`Http.Status.classify`).

**The link** (`Http.Link`). Whether the server can be reached, the replies that it still has for the
next requests, and the requests that it got. A reply may be late, be cut short, or not come at all.
Once its replies are used up, the server answers that they are gone.

**Sending** (`Http.Link.send`). A request gives a response or a failure. A reply that takes longer
than the time allowed is not waited for. A response whose body was cut short has no body.

**Clients** (`Http.Client`). The address that all paths are appended to, and the network settings
that say how long to wait and which failures are transient. A client asks once and makes no second
attempt (`Http.Client.get`). An answer with success must hold JSON of the expected shape.
-/

namespace TradingBot.Http

/-! ## Status codes -/

def reasons : List (Nat × String) :=
  [(100, "Continue"), (101, "Switching Protocols"), (102, "Processing"), (103, "Early Hints"),
    (200, "OK"), (201, "Created"), (202, "Accepted"), (203, "Non Authoritative Information"),
    (204, "No Content"), (205, "Reset Content"), (206, "Partial Content"), (207, "Multi-Status"),
    (208, "Already Reported"), (226, "IM Used"), (300, "Multiple Choices"),
    (301, "Moved Permanently"), (302, "Found"), (303, "See Other"), (304, "Not Modified"),
    (305, "Use Proxy"), (307, "Temporary Redirect"), (308, "Permanent Redirect"),
    (400, "Bad Request"), (401, "Unauthorized"), (402, "Payment Required"), (403, "Forbidden"),
    (404, "Not Found"), (405, "Method Not Allowed"), (406, "Not Acceptable"),
    (407, "Proxy Authentication Required"), (408, "Request Timeout"), (409, "Conflict"),
    (410, "Gone"), (411, "Length Required"), (412, "Precondition Failed"),
    (413, "Payload Too Large"), (414, "URI Too Long"), (415, "Unsupported Media Type"),
    (416, "Range Not Satisfiable"), (417, "Expectation Failed"), (418, "I'm a teapot"),
    (421, "Misdirected Request"), (422, "Unprocessable Entity"), (423, "Locked"),
    (424, "Failed Dependency"), (425, "Too Early"), (426, "Upgrade Required"),
    (428, "Precondition Required"), (429, "Too Many Requests"),
    (431, "Request Header Fields Too Large"), (451, "Unavailable For Legal Reasons"),
    (500, "Internal Server Error"), (501, "Not Implemented"), (502, "Bad Gateway"),
    (503, "Service Unavailable"), (504, "Gateway Timeout"), (505, "HTTP Version Not Supported"),
    (506, "Variant Also Negotiates"), (507, "Insufficient Storage"), (508, "Loop Detected"),
    (510, "Not Extended"), (511, "Network Authentication Required")]

def reason? (code : Nat) : Option String := reasons.lookup code

structure Status where
  code : Nat
  valid : 100 ≤ code ∧ code < 1000 := by decide
deriving DecidableEq, Repr

namespace Status

def ofNat? (code : Nat) : Option Status :=
  if h : 100 ≤ code ∧ code < 1000 then some ⟨code, h⟩ else none

def text (s : Status) : String :=
  s!"{toString s.code} " ++ (reason? s.code).getD "<unknown status code>"

def IsSuccess (s : Status) : Prop := 200 ≤ s.code ∧ s.code < 300

instance (s : Status) : Decidable s.IsSuccess := inferInstanceAs (Decidable (_ ∧ _))

/-- Codes with which a server owns up to an error of its own. -/
def IsServerError (s : Status) : Prop := 500 ≤ s.code ∧ s.code < 600

instance (s : Status) : Decidable s.IsServerError := inferInstanceAs (Decidable (_ ∧ _))

/-- The error that an answer without success stands for. -/
def classify (s : Status) (network : Config.Network) (body : String) : ApiError :=
  .of (network.Excuses (some s.code) body) s!"HTTP {s.text} - {body}"

end Status

/-! ## The link to a server -/

/-! ## Requests and responses -/

inductive Method where
  | get
  | post (value : Json)
deriving Repr

structure Request where
  method : Method
  path : String
deriving Repr

namespace Request

def line (r : Request) : String :=
  match r.method with
  | .get => "GET " ++ r.path
  | .post _ => "POST " ++ r.path

def payload? (r : Request) : Option Json :=
  match r.method with
  | .get => none
  | .post value => some value

end Request

structure Response where
  status : Status
  /-- The bytes of the body, if it came in full. -/
  body? : Option (List UInt8)
deriving Repr

/-! ## Failures -/

inductive SendFailure where
  | refused
  | unreachable
  | timedOut
  | dropped
deriving DecidableEq, Repr

/-- Why there is no text to read. -/
inductive TransportFailure where
  | notAnAddress (error : UrlError)
  | wrongScheme (url : String)
  | unsent (url : String) (failure : SendFailure)
  | brokenBody
deriving DecidableEq, Repr

namespace TransportFailure

def message : TransportFailure → String
  | notAnAddress _ => "builder error"
  | wrongScheme url => s!"builder error for url ({url})"
  | unsent url _ => s!"error sending request for url ({url})"
  | brokenBody => "error decoding response body"

/-- What lies behind the failure, outermost first. -/
def causes : TransportFailure → List String
  | notAnAddress error => [error.text]
  | wrongScheme _ => ["URL scheme is not allowed"]
  | unsent _ .refused =>
    ["client error (Connect)", "tcp connect error", "Connection refused (os error 111)"]
  | unsent _ .unreachable =>
    ["client error (Connect)", "tcp connect error", "Network is unreachable (os error 101)"]
  | unsent _ .timedOut => ["operation timed out"]
  | unsent _ .dropped =>
    ["client error (SendRequest)", "connection closed before message completed"]
  | brokenBody => []

/-- No connection, or no answer in time. -/
def isTransient : TransportFailure → Bool
  | unsent _ .refused => true
  | unsent _ .unreachable => true
  | unsent _ .timedOut => true
  | _ => false

/-- The error that the failure stands for: transient by itself, or because the settings excuse
it. -/
def classify (f : TransportFailure) (network : Config.Network) : ApiError :=
  .of (f.isTransient || decide (network.Excuses none f.message)) f.message

end TransportFailure

/-! ## The link -/

/-- What becomes of a reply on its way. -/
inductive Fate where
  | whole
  /-- The connection closes before the reply. -/
  | dropped
  /-- The connection closes within the body. -/
  | truncated
deriving DecidableEq, Repr

/-- One delay stands before the whole reply. A reply whose head is in time and whose body stalls has
no form of its own: with success it ends as a late one does, and without as a truncated one. -/
structure Reply where
  status : Status := { code := 200 }
  body : List UInt8 := []
  fate : Fate := .whole
  /-- Milliseconds before the reply. -/
  delay : Nat := 0
deriving Repr

/-- How a server stands to those who want to reach it. -/
inductive Reach where
  | up
  | refusing
  | down
deriving DecidableEq, Repr

structure Link where
  reach : Reach := .up
  replies : List Reply := []
  requests : List Request := []

namespace Link

/-- The answer of a server that has no reply left. -/
def exhausted : Reply :=
  { status := { code := 410 }, body := "no more replies".toUTF8.toList }

/-- Notes a request and takes the next reply. -/
def take (r : Request) (link : Link) : Reply × Link :=
  (link.replies.headD exhausted,
    { link with replies := link.replies.tail, requests := link.requests ++ [r] })

/-- Waits for a reply, if it comes in time. -/
def receive (url : String) (timeout : Nat) (reply : Reply) :
    Program Link (Except TransportFailure Response) := do
  if timeout < reply.delay then
    Program.pause timeout
    return .error (.unsent url .timedOut)
  else
    Program.pause reply.delay
    match reply.fate with
    | .whole => return .ok { status := reply.status, body? := some reply.body }
    | .truncated => return .ok { status := reply.status, body? := none }
    | .dropped => return .error (.unsent url .dropped)

/-- Sends a request to an address; `timeout` is in milliseconds. -/
def send (address : String) (method : Method) (timeout : Nat) :
    Program Link (Except TransportFailure Response) := do
  match Url.parse address with
  | .error e => return .error (.notAnAddress e)
  | .ok url =>
    if url.IsHttp then
      match (← Program.get).reach with
      | .refusing => return .error (.unsent url.text .refused)
      | .down => return .error (.unsent url.text .unreachable)
      | .up =>
        let reply ← Program.modifyGet (take { method, path := url.path })
        receive url.text timeout reply
    else return .error (.wrongScheme url.text)

end Link

/-! ## Clients -/

structure Client where
  base : String
  network : Config.Network
deriving DecidableEq, Repr

namespace Client

def withoutSlashes (s : String) : String :=
  String.ofList (s.toList.reverse.dropWhile (· == '/')).reverse

def address (c : Client) (path : String) : String := withoutSlashes c.base ++ path

/-- The time that a call may take, in milliseconds. -/
def timeout (c : Client) : Nat := c.network.timeout.toNat * 1000

/-- What an answer says, read as `decode` reads it. If it is not JSON of this shape, `<json>` stands
in the message for the JSON reader's own words. -/
def interpret {α : Type} (c : Client) (decode : Json → Option α) (r : Response) :
    Except ApiError α :=
  let text? := r.body?.map Text.decodeLossy
  if r.status.IsSuccess then
    match text? with
    | none => .error (TransportFailure.brokenBody.classify c.network)
    | some text =>
      match (Json.parse text).bind decode with
      | none => .error (.api s!"Failed to parse exchange response: <json> - {text}")
      | some a => .ok a
  else .error (r.status.classify c.network (text?.getD ""))

def get {α : Type} (c : Client) (path : String) (decode : Json → Option α) : Call Link α :=
  ExceptT.mk do
    let address := c.address path
    Program.tell .debug "GET" [("url", address)]
    match ← Link.send address .get c.timeout with
    | .error failure => return .error (.error (failure.classify c.network))
    | .ok response =>
      match c.interpret decode response with
      | .ok a => return .ok a
      | .error e =>
        if ¬ response.status.IsSuccess then
          Program.tell .warn "Exchange request failed"
            [("status", response.status.text), ("error", e.message)]
        return .error (.error e)

end Client

end TradingBot.Http
