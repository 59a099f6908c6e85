import KiteRail.Base64
import KiteRail.McpHeaders
import KiteRail.McpJson

namespace KiteRail.Proxy
open Bytes Header

def codeInvalidRequest : ℤ := -32600

def codeHeaderBodyMismatch : ℤ := -32020

/-- The validated shape of one invocation; `arguments` is absent for a `tools/call`
without any, and `responseID` for a request without an id. -/
structure IngressRequest where
  method : Bytes
  paramsName : Bytes
  tool : Bytes
  arguments : Option (List (Bytes × Json))
  requestID : Bytes
  responseID : Option Json

structure Invocation where
  protocol : Bytes
  protocolVersion : Bytes
  method : Bytes
  name : Bytes
  tool : Bytes
  arguments : Option (List (Bytes × Json))
  requestID : Bytes
  responseID : Option Json

structure IngressError where
  status : ℕ
  code : ℤ
  message : Message
  responseID : Option Json

def member (object : List (Bytes × Json)) (key : Bytes) : Option Json :=
  (object.find? fun m => m.1 == key).map Prod.snd

/-- The request id as text and as it is echoed. -/
def requestIdentifier (requestBody : List (Bytes × Json)) :
    Except Message (Bytes × Option Json) :=
  match member requestBody (lit "id") with
  | none => .ok ([], none)
  | some (.str s) => .ok (s, some (.str s))
  | some (.num text) => .ok (text, some (.num text))
  | some _ => .error (msg "id must be a string or number when present")

/-- The parameter that a method mirrors, if it mirrors one. -/
def nameField (method : Bytes) : Option Bytes :=
  if method = lit "tools/call" ∨ method = lit "prompts/get" then some (lit "name")
  else if method = lit "resources/read" then some (lit "uri")
  else none

def mirroredName (method : Bytes) (parameters : List (Bytes × Json)) : Except Message Bytes :=
  match nameField method with
  | none => .ok []
  | some key =>
    match member parameters key with
    | some (.str (b :: bs)) => .ok (b :: bs)
    | _ => .error [.text (method ++ lit " requires a non-empty params." ++ key)]

/-- The arguments that policy sees. -/
def policyArguments (method : Bytes) (parameters : List (Bytes × Json)) :
    Except Message (Option (List (Bytes × Json))) :=
  if method = lit "tools/call" then
    match member parameters (lit "arguments") with
    | none => .ok none
    | some (.obj arguments) => .ok (some arguments)
    | some _ => .error (msg "tools/call params.arguments must be a JSON object when present")
  else .ok (some parameters)

/-- The checks after the id, in the order of the source. -/
def validateCall (requestBody : List (Bytes × Json)) (requestID : Bytes)
    (responseID : Option Json) : Except Message IngressRequest := do
  if (member requestBody (lit "result")).isSome then
    throw (msg "client-sent responses are not accepted")
  if (member requestBody (lit "error")).isSome then
    throw (msg "client-sent error objects are not accepted")
  if (member requestBody (lit "jsonrpc")).bind Json.str? ≠ some (lit "2.0") then
    throw (msg "jsonrpc must be \"2.0\"")
  match member requestBody (lit "method"), member requestBody (lit "params") with
  | some methodRaw, some paramsRaw =>
    match methodRaw with
    | .str (b :: bs) =>
      let method := b :: bs
      match paramsRaw with
      | .obj parameters =>
        let name ← mirroredName method parameters
        let arguments ← policyArguments method parameters
        return ⟨method, name, if method = lit "tools/call" then name else method, arguments,
          requestID, responseID⟩
      | _ => throw (msg "params must be a JSON object")
    | _ => throw (msg "method must be a non-empty string")
  | _, _ => throw [.text (lit "missing method or params " ++ [0xE2, 0x80, 0x94] ++
      lit " only bounded JSON-RPC/MCP invocations are accepted")]

/-- The validated request, or the reason for rejecting it with the id to echo. -/
def validateIngress (body : Bytes) : Except (Message × Option Json) IngressRequest :=
  match Mcp.decodeObject body with
  | .error e => .error (e, none)
  | .ok requestBody =>
    match requestIdentifier requestBody with
    | .error e => .error (e, none)
    | .ok (requestID, responseID) =>
      match validateCall requestBody requestID responseID with
      | .error e => .error (e, responseID)
      | .ok ingress => .ok ingress

lemma tool_of_validateCall {requestBody : List (Bytes × Json)} {requestID : Bytes}
    {responseID : Option Json} {ing : IngressRequest}
    (h : validateCall requestBody requestID responseID = .ok ing) :
    ing.tool = if ing.method = lit "tools/call" then ing.paramsName else ing.method := by
  simp only [validateCall, bind, Except.bind, pure, Except.pure, throw, throwThe,
    MonadExceptOf.throw] at h
  repeat' split at h
  all_goals simp only [reduceCtorEq, Except.ok.injEq] at h
  all_goals
    rename_i hmethod
    subst h
    simp only [hmethod, if_true, if_false]

lemma tool_of_validateIngress {body : Bytes} {ing : IngressRequest}
    (h : validateIngress body = .ok ing) :
    ing.tool = if ing.method = lit "tools/call" then ing.paramsName else ing.method := by
  simp only [validateIngress] at h
  repeat' split at h
  all_goals simp only [reduceCtorEq, Except.ok.injEq] at h
  rename_i hcall
  exact h ▸ tool_of_validateCall hcall

def trimSpaces (value : Bytes) : Bytes :=
  (value.dropWhile fun b => b == 32 || b == 9).rdropWhile fun b => b == 32 || b == 9

/-- The checks on the values of a header that is present. -/
def singleValue (expectedName : Bytes) : List Bytes → Except Message Bytes
  | [value] =>
    if value = [] then .error [.text (expectedName ++ lit " must have exactly one non-empty value")]
    else if trimSpaces value ≠ value then
      .error [.text (expectedName ++ lit " must not have leading or trailing whitespace")]
    else if (Utf8.runes value).any fun r => (r < 0x20 && r != 9) || 0x7E < r then
      .error [.text (expectedName ++ lit " contains invalid header characters")]
    else .ok value
  | _ => .error [.text (expectedName ++ lit " must have exactly one non-empty value")]

/-- The one value of a header, `none` if it is absent; names are matched ignoring
case. -/
def singleHeader (header : Header) (expectedName : Bytes) : Except Message (Option Bytes) :=
  match header.entries.filter fun e => equalFold e.1 expectedName with
  | [] => .ok none
  | matching => (singleValue expectedName (matching.flatMap fun e => e.2)).map some

def trimPrefix (p s : Bytes) : Bytes := if p.isPrefixOf s then s.drop p.length else s

def trimSuffix (p s : Bytes) : Bytes := if p.isSuffixOf s then s.take (s.length - p.length) else s

def decodeHeaderName (value : Bytes) : Except Message Bytes :=
  let start := lit "=?base64?"
  let close := lit "?="
  if !start.isPrefixOf value || !close.isSuffixOf value then .ok value
  else
    let encoded := trimSuffix close (trimPrefix start value)
    match Base64.decode encoded with
    | some decoded =>
      if Utf8.valid decoded && Base64.encode decoded == encoded then .ok decoded
      else .error (msg "Mcp-Name contains invalid Base64-encoded UTF-8")
    | none => .error (msg "Mcp-Name contains invalid Base64-encoded UTF-8")

def checkMethodHeader (ingress : IngressRequest) : Option Bytes → Except Message Unit
  | some method =>
    if method ≠ ingress.method then
      .error [.text (lit "Mcp-Method header "), .quoted method,
        .text (lit " contradicts body method "), .quoted ingress.method]
    else .ok ()
  | none => .ok ()

def checkNameHeader (ingress : IngressRequest) : Option Bytes → Except Message Unit
  | some name => do
    let decodedName ← decodeHeaderName name
    if ingress.paramsName = [] ∨ decodedName ≠ ingress.paramsName then
      .error [.text (lit "Mcp-Name header "), .quoted name,
        .text (lit " contradicts the body's name or URI "), .quoted ingress.paramsName]
    else .ok ()
  | none => .ok ()

/-- The declared protocol version, if the mirrored headers agree with the body. -/
def validateMirroredHeaders (header : Header) (ingress : IngressRequest) :
    Except Message (Option Bytes) := do
  checkMethodHeader ingress (← singleHeader header (lit "Mcp-Method"))
  checkNameHeader ingress (← singleHeader header (lit "Mcp-Name"))
  let version ← singleHeader header (lit "MCP-Protocol-Version")
  if (version.getD []).contains 44 then
    throw (msg "MCP-Protocol-Version must contain one version")
  return version

/-- `MCPAdapter.Parse`. -/
def parse (header : Header) (body : Bytes) : Except IngressError Invocation :=
  match validateIngress body with
  | .error (e, responseID) => .error ⟨400, codeInvalidRequest, e, responseID⟩
  | .ok ing =>
    match validateMirroredHeaders header ing with
    | .error e => .error ⟨400, codeHeaderBodyMismatch, e, ing.responseID⟩
    | .ok version =>
      .ok ⟨lit "mcp", version.getD [], ing.method, ing.paramsName, ing.tool, ing.arguments,
        ing.requestID, ing.responseID⟩

/-- The tool that policy sees is the name in the body, for other methods the method. -/
lemma tool_of_parse {header : Header} {body : Bytes} {inv : Invocation}
    (h : parse header body = .ok inv) :
    inv.tool = if inv.method = lit "tools/call" then inv.name else inv.method := by
  simp only [parse] at h
  repeat' split at h
  all_goals simp only [reduceCtorEq, Except.ok.injEq] at h
  rename_i hing _ _ _
  subst h
  exact tool_of_validateIngress hing

end KiteRail.Proxy
