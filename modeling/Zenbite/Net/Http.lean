import Zenbite.Printf

/-! http_get_once (net.c): the request for a URL, and the parser of the response. -/

namespace Zenbite.Http

open Memory (Buffer)
open Printf (ksnprintf isDigit)

/-- "http://" -/
def scheme : List UInt8 := [104, 116, 116, 112, 58, 47, 47]

/-- `while (*p && *p != ':' && *p != '/' && hi < (int)sizeof host - 1)`, with the room that
is left in `host`: the host and the rest of the URL. -/
def hostLoop : Nat → List UInt8 → List UInt8 × List UInt8
  | _, [] => ([], [])
  | room, c :: p =>
    if c = 58 ∨ c = 47 ∨ room = 0 then ([], c :: p)
    else (c :: (hostLoop (room - 1) p).1, (hostLoop (room - 1) p).2)

/-- The port, a u16, and the rest. -/
def portOf (p : List UInt8) : Nat × List UInt8 :=
  if p.head? = some 58 then
    (((p.drop 1).takeWhile isDigit).foldl (fun n c => (n * 10 + (c.toNat - 48)) % 2 ^ 16) 0,
      (p.drop 1).dropWhile isDigit)
  else (80, p)

/-- `(*p == '/') ? p : "/"` -/
def pathOf (p : List UInt8) : List UInt8 := if p.head? = some 47 then p else [47]

/-! The request: "GET ", " HTTP/1.0", "Host: ", "User-Agent: Zenbite/0.3" and
"Connection: close". -/

def crlf : List UInt8 := [13, 10]
def get : List UInt8 := [71, 69, 84, 32]
def version : List UInt8 := [32, 72, 84, 84, 80, 47, 49, 46, 48]
def hostField : List UInt8 := [72, 111, 115, 116, 58, 32]
def agentField : List UInt8 :=
  [85, 115, 101, 114, 45, 65, 103, 101, 110, 116, 58, 32, 90, 101, 110, 98, 105, 116, 101, 47, 48, 46, 51]
def connectionField : List UInt8 :=
  [67, 111, 110, 110, 101, 99, 116, 105, 111, 110, 58, 32, 99, 108, 111, 115, 101]

/-- "%s" -/
def percentS : List UInt8 := [37, 115]

def requestFormat : List UInt8 :=
  get ++ (percentS ++ ((version ++ crlf ++ hostField) ++ (percentS ++
    (crlf ++ agentField ++ crlf ++ connectionField ++ crlf ++ crlf))))

/-- What goes to tcp_send: `reqlen` bytes of `req`. -/
def request (req : Buffer) (path host : List UInt8) : Option (List UInt8) :=
  (ksnprintf req 256 requestFormat [.str (some path), .str (some host)]).map fun r =>
    (List.range r.2.toNat).map r.1

/-! The response. -/

/-- g_http_status, g_http_location and the locals of the loop: `line` up to `ll`, and what
fs_write has taken. -/
structure Parser where
  line : List UInt8
  headerDone : Bool
  gotStatus : Bool
  status : Int
  location : List UInt8
  file : List UInt8
  total : UInt32
  deriving DecidableEq

def Parser.start : Parser := ⟨[], false, false, 0, [], [], 0⟩

/-- "HTTP/" -/
def isStatusLine (line : List UInt8) : Bool := List.isPrefixOf [72, 84, 84, 80, 47] line

/-- The number behind the first blanks. -/
def statusCode (line : List UInt8) : Int :=
  (((line.dropWhile (· ≠ 32)).dropWhile (· = 32)).takeWhile isDigit).foldl
    (fun code c => wrapInt (code * 10 + (c.toNat - 48))) 0

/-- "Location:", with its first two letters in either case. -/
def isLocation (text : List UInt8) : Bool :=
  (text.head? = some 76 ∨ text.head? = some 108) ∧ (text[1]? = some 111 ∨ text[1]? = some 79) ∧
    List.isPrefixOf [99, 97, 116, 105, 111, 110, 58] (text.drop 2)

def locationOf (line : List UInt8) : List UInt8 :=
  ((line.drop 9).dropWhile fun c => c = 32 ∨ c = 9).take 255

namespace Parser

/-- The end of a header line. The string ends at the first NUL of the line. -/
def endLine (s : Parser) : Parser :=
  let line := s.line.takeWhile (· ≠ 0)
  if s.line = [] then { s with headerDone := true }
  else if !s.gotStatus && isStatusLine line then
    { s with line := [], status := statusCode line, gotStatus := true }
  else if isLocation line then { s with line := [], location := locationOf line }
  else { s with line := [] }

def headerByte (c : UInt8) (s : Parser) : Parser :=
  if c = 13 then s
  else if c ≠ 10 then if s.line.length < 255 then { s with line := s.line ++ [c] } else s
  else s.endLine

/-- `while (!header_done && i < n)`, and what is left of the chunk. -/
def headerLoop : List UInt8 → Parser → Parser × List UInt8
  | [], s => (s, [])
  | c :: data, s => if s.headerDone then (s, c :: data) else headerLoop data (s.headerByte c)

/-- fs_write without a disk error. -/
def write (data : List UInt8) (s : Parser) : Parser :=
  { s with file := s.file ++ data, total := s.total + UInt32.ofNat data.length }

/-- A round of the loop. -/
def chunk (data : List UInt8) (s : Parser) : Parser :=
  let r := headerLoop data s
  if r.1.headerDone ∧ r.2 ≠ [] then r.1.write r.2 else r.1

end Parser

/-- What one call of tcp_recv gives, into 1024 bytes. -/
abbrev Chunk := { data : List UInt8 // data ≠ [] ∧ data.length ≤ 1024 }

def stream (chunks : List Chunk) : List UInt8 := chunks.flatMap (·.val)

/-- The loop, up to the call that gives nothing. -/
def receive (chunks : List Chunk) : Parser := chunks.foldl (fun s data => s.chunk data.val) .start

/-- What dns_resolve and tcp_connect answer, and whether the output file can be created
and opened. -/
structure Around where
  resolve : List UInt8 → Nat
  connect : Nat → Nat → Bool
  created : Bool
  opened : Bool

/-- The connection and the bytes of the request. -/
structure Sent where
  dst : Nat
  port : Nat
  request : List UInt8
  deriving DecidableEq

/-- What http_get_once leaves: the request if it came to that, the status and the location,
the output file if it was opened, and the return value. -/
structure Outcome where
  sent : Option Sent
  status : Int
  location : List UInt8
  file : Option (List UInt8)
  result : Int
  deriving DecidableEq

def Outcome.failed (sent : Option Sent) : Outcome := ⟨sent, 0, [], none, -1⟩

/-- http_get_once; `req` is what lies in its request buffer before. -/
def httpGetOnce (around : Around) (req : Buffer) (url : List UInt8) (chunks : List Chunk) : Option Outcome :=
  if ¬ scheme <+: url then some (.failed none)
  else
    let host := hostLoop 63 (url.drop 7)
    let port := portOf host.2
    let path := pathOf port.2
    let dst := around.resolve host.1
    if dst = 0 ∨ ¬ around.connect dst port.1 then some (.failed none)
    else
      (request req path host.1).map fun request =>
        let sent := some ⟨dst, port.1, request⟩
        if around.created ∧ around.opened then
          let s := receive chunks
          ⟨sent, s.status, s.location, some s.file, wrapInt s.total.toNat⟩
        else .failed sent

/-! The parser and the cuts of the stream. -/

namespace Parser

section
variable {s : Parser} {a b data : List UInt8}

theorem write_eq (data : List UInt8) (s : Parser) : s.write data =
    { s with file := s.file ++ data, total := s.total + UInt32.ofNat data.length } := rfl

theorem write_nil (s : Parser) : s.write [] = s := by
  rw [write_eq, List.append_nil]
  exact congrArg (fun total => ({ s with total := total } : Parser)) (UInt32.add_zero s.total)

theorem chunk_eq (data : List UInt8) (s : Parser) : s.chunk data =
    if (headerLoop data s).1.headerDone then (headerLoop data s).1.write (headerLoop data s).2
    else (headerLoop data s).1 := by
  rw [chunk]
  by_cases done : (headerLoop data s).1.headerDone = true
  · rw [if_pos done]
    by_cases none_ : (headerLoop data s).2 = []
    · rw [if_neg (fun both => both.2 none_), none_, write_nil]
    · rw [if_pos ⟨done, none_⟩]
  · rw [if_neg done, if_neg (fun both => done both.1)]

end

end Parser

/-- A header with its empty line: lines that are not empty, and then one that is. A CR
counts for nothing. -/
def EndsHeader (head : List UInt8) : Prop :=
  ∃ (lines : List (List UInt8)) (blank : List UInt8), head = lines.flatMap (· ++ [10]) ++ (blank ++ [10]) ∧
    (∀ line ∈ lines, 10 ∉ line ∧ ∃ c ∈ line, c ≠ 13) ∧ ∀ c ∈ blank, c = 13

theorem EndsHeader.cons {line head : List UInt8} (one : 10 ∉ line) (full : ∃ c ∈ line, c ≠ 13)
    (ends : EndsHeader head) : EndsHeader (line ++ 10 :: head) := by
  obtain ⟨lines, blank, rfl, all, crs⟩ := ends
  refine ⟨line :: lines, blank, ?_, List.forall_mem_cons.mpr ⟨⟨one, full⟩, all⟩, crs⟩
  rw [List.flatMap_cons, List.append_assoc, List.append_assoc]
  rfl

theorem first_line {a b x y : List UInt8} (left : 10 ∉ a) (right : 10 ∉ b)
    (same : a ++ 10 :: x = b ++ 10 :: y) : a = b ∧ x = y := by
  have taken : ∀ l r : List UInt8, 10 ∉ l → (l ++ 10 :: r).takeWhile (· ≠ 10) = l := by
    intro l r absent
    have plain : ∀ c ∈ l, decide (c ≠ 10) = true := fun c member =>
      decide_eq_true (ne_of_mem_of_not_mem member absent)
    rw [List.takeWhile_append_of_pos plain]
    exact List.append_nil l
  have line : a = b := by rw [← taken a x left, ← taken b y right, same]
  subst line
  exact ⟨rfl, (List.cons.inj (List.append_cancel_left same)).2⟩

/-- The first line of a header is the first line of the stream. -/
theorem EndsHeader.tail {line head rest : List UInt8} (ends : EndsHeader head) (one : 10 ∉ line)
    (full : ∃ c ∈ line, c ≠ 13) (inside : head <+: line ++ 10 :: rest) :
    ∃ later, EndsHeader later ∧ head = line ++ 10 :: later ∧ later <+: rest := by
  obtain ⟨lines, blank, rfl, all, crs⟩ := ends
  obtain ⟨behind, same⟩ := inside
  have cr : (10 : UInt8) ∉ blank := fun member => absurd (crs 10 member) (by decide)
  cases lines with
  | nil =>
      rw [List.flatMap_nil, List.nil_append, List.append_assoc] at same
      obtain ⟨c, member, other⟩ := full
      exact absurd (crs c ((first_line cr one same).1 ▸ member)) other
  | cons first lines =>
      have here := List.forall_mem_cons.mp all
      rw [List.flatMap_cons, List.append_assoc, List.append_assoc, List.append_assoc] at same
      obtain ⟨rfl, behind_⟩ := first_line here.1.1 one same
      refine ⟨lines.flatMap (· ++ [10]) ++ (blank ++ [10]), ⟨lines, blank, rfl, here.2, crs⟩, ?_, behind, ?_⟩
      · rw [List.flatMap_cons, List.append_assoc, List.append_assoc]
        rfl
      · rw [← behind_, List.append_assoc]
        rfl

namespace Parser

end Parser

/-- "HTTP/1.1 200", an empty line and "hi". -/
def answer : Chunk :=
  ⟨[72, 84, 84, 80, 47, 49, 46, 49, 32, 50, 48, 48, 13, 10, 13, 10, 104, 105], by simp⟩

/-- The request in full. -/
def requestText (path host : List UInt8) : List UInt8 :=
  get ++ (path ++ ((version ++ crlf ++ hostField) ++ (host ++
    (crlf ++ agentField ++ crlf ++ connectionField ++ crlf ++ crlf))))

theorem get_ordinary : ∀ c ∈ get, c ≠ 0 ∧ c ≠ 37 := by decide +kernel

theorem hostField_ordinary : ∀ c ∈ version ++ crlf ++ hostField, c ≠ 0 ∧ c ≠ 37 := by decide +kernel

theorem fields_ordinary :
    ∀ c ∈ crlf ++ agentField ++ crlf ++ connectionField ++ crlf ++ crlf, c ≠ 0 ∧ c ≠ 37 := by decide +kernel

open Printf (Piece Spec Str plains)

def requestPieces (path host : Str) : List Piece :=
  plains get get_ordinary ++ (.conv .bare (.str (some path)) ::
    (plains _ hostField_ordinary ++ (.conv .bare (.str (some host)) :: plains _ fields_ordinary)))

theorem request_eq (req : Buffer) (path host : Str) : request req path.val.chars host.val.chars =
    some ((requestText path.val.chars host.val.chars).take 255) := by
  have format : (requestPieces path host).flatMap Piece.text = requestFormat := by
    simp only [requestPieces, List.flatMap_append, List.flatMap_cons,
      Printf.plains_flatMap _ (f := Piece.text) fun _ _ => rfl]
    rfl
  have args : (requestPieces path host).flatMap Piece.args ++ [] =
      [.str (some path.val.chars), .str (some host.val.chars)] := by
    simp only [requestPieces, List.flatMap_append, List.flatMap_cons, Printf.plains_args]
    rfl
  have text : (requestPieces path host).flatMap Piece.emitted =
      requestText path.val.chars host.val.chars := by
    simp only [requestPieces, List.flatMap_append, List.flatMap_cons,
      Printf.plains_flatMap _ (f := Piece.emitted) fun _ _ => rfl]
    rw [requestText]
    simp only [Piece.emitted, Printf.Conv.emitted]
    rw [show Spec.bare.left = false from rfl, Printf.justified_bare, Printf.justified_bare]
    rfl
  have printed := Printf.ksnprintf_eq (requestPieces path host) [] req (show 0 < 256 by decide)
  rw [format, args, text] at printed
  rw [request, printed]
  have bytes := Printf.printed_bytes req (requestText path.val.chars host.val.chars) 256 (by omega)
  rw [Option.map_some, bytes]

/-! URLs. -/

/-- A URL "http://host", maybe with a port and a path, in visible characters. A query is part
of the path. -/
structure Site where
  host : List UInt8
  port : Option (List UInt8)
  path : List UInt8
  visible : ∀ c ∈ host ++ path, 33 ≤ c ∧ c ≤ 126
  plain : 58 ∉ host ∧ 47 ∉ host
  digits : ∀ number ∈ port, ∀ c ∈ number, isDigit c = true
  rooted : path = [] ∨ path.head? = some 47
  short : host.length + path.length < 2 ^ 31

def Site.portText (site : Site) : List UInt8 := site.port.elim [] (58 :: ·)

def Site.text (site : Site) : List UInt8 := scheme ++ (site.host ++ (site.portText ++ site.path))

/-- The port written in the URL, 80 when absent. -/
def Site.portNumber (site : Site) : Nat :=
  match site.port with
  | some (d :: digits) => Printf.numeral (d :: digits)
  | _ => 80

/-- The path of the request line. -/
def Site.target (site : Site) : List UInt8 := if site.path = [] then [47] else site.path

inductive Url where
  | http (site : Site)
  | other (text : List UInt8) (scheme : ¬ scheme <+: text)

def Url.text : Url → List UInt8
  | .http site => site.text
  | .other text _ => text

/-- A request with this path in its line and this host in its Host header that ends with an
empty line. -/
def IsRequest (path host request : List UInt8) : Prop :=
  ∃ fields, (fields = [] ∨ crlf <:+ fields) ∧
    request = get ++ (path ++ ((version ++ crlf ++ hostField) ++ (host ++ (crlf ++ (fields ++ crlf)))))

/-- Nothing is sent, or a whole request to the place that the URL names. -/
def Whole (around : Around) (url : Url) (outcome : Outcome) : Prop :=
  outcome.sent = none ∧ outcome.result = -1 ∨
    ∃ site request, url = .http site ∧
      outcome.sent = some ⟨around.resolve site.host, site.portNumber, request⟩ ∧
      IsRequest site.target site.host request

/-- Host, port and request fit what holds them. -/
def Url.Fits : Url → Prop
  | .http site => site.host.length ≤ 63 ∧ site.port ≠ some [] ∧ site.portNumber < 2 ^ 16 ∧
      site.host.length + site.target.length ≤ 186
  | .other _ _ => True

theorem hostLoop_of (room : Nat) : ∀ {host : List UInt8} (rest : List UInt8), 58 ∉ host → 47 ∉ host →
    (∀ c ∈ rest.head?, c = 58 ∨ c = 47) →
    hostLoop room (host ++ rest) = (host.take room, host.drop room ++ rest) := by
  intro host
  induction host generalizing room with
  | nil =>
      intro rest _ _ stops
      rw [List.take_nil, List.drop_nil, List.nil_append]
      cases rest with
      | nil => rfl
      | cons c rest =>
          rw [hostLoop, if_pos ((stops c rfl).elim .inl fun slash => .inr (.inl slash))]
  | cons c host ih =>
      intro rest colon slash stops
      rw [List.mem_cons, not_or] at colon slash
      rw [List.cons_append, hostLoop]
      cases room with
      | zero => rw [if_pos (.inr (.inr rfl))]; rfl
      | succ room =>
          rw [if_neg (fun stop => stop.elim (fun h => colon.1 h.symm)
            fun stop => stop.elim (fun h => slash.1 h.symm) (Nat.succ_ne_zero room)),
            Nat.add_sub_cancel, ih room rest colon.2 slash.2 stops]
          rfl

/-- The u16 of the port. -/
theorem port_loop (digits : List UInt8) : ∀ n m : Nat, n = m % 2 ^ 16 →
    digits.foldl (fun n c => (n * 10 + (c.toNat - 48)) % 2 ^ 16) n =
      digits.foldl (fun n c => n * 10 + (c.toNat - 48)) m % 2 ^ 16 := by
  induction digits with
  | nil => exact fun n m same => same
  | cons c digits ih =>
      intro n m same
      rw [List.foldl_cons, List.foldl_cons]
      refine ih _ _ ?_
      omega

theorem portOf_some {digits rest : List UInt8} (all : ∀ c ∈ digits, isDigit c = true)
    (ends : ∀ c ∈ rest.head?, isDigit c = false) :
    portOf (58 :: (digits ++ rest)) = (Printf.numeral digits % 2 ^ 16, rest) := by
  have taken : rest.takeWhile isDigit = [] ∧ rest.dropWhile isDigit = rest := by
    cases rest with
    | nil => exact ⟨rfl, rfl⟩
    | cons c rest =>
        have stop : isDigit c = false := ends c rfl
        rw [List.takeWhile_cons, List.dropWhile_cons, stop]
        exact ⟨rfl, rfl⟩
  rw [portOf, if_pos List.head?_cons, List.drop_succ_cons, List.drop_zero, List.takeWhile_append_of_pos all,
    List.dropWhile_append_of_pos all, taken.1, taken.2, List.append_nil, port_loop digits 0 0 rfl]
  rfl

theorem portOf_none {rest : List UInt8} (other : rest.head? ≠ some 58) : portOf rest = (80, rest) := by
  rw [portOf, if_neg other]

theorem str_of (chars : List UInt8) (text : ∀ c ∈ chars, c ≠ 0) (short : chars.length < 2 ^ 31) :
    ∃ s : Str, s.val.chars = chars := ⟨⟨⟨chars, text⟩, short⟩, rfl⟩

/-- What is sent, by what the parts of the URL are read as. -/
theorem httpGetOnce_sends (around : Around) (req : Buffer) (chunks : List Chunk) {url rest rest' : List UInt8}
    (http : scheme <+: url) {host path : Str} {port : Nat}
    (hosted : hostLoop 63 (url.drop 7) = (host.val.chars, rest)) (ported : portOf rest = (port, rest'))
    (rooted : pathOf rest' = path.val.chars) :
    ∃ outcome, httpGetOnce around req url chunks = some outcome ∧
      if around.resolve host.val.chars = 0 ∨ ¬ around.connect (around.resolve host.val.chars) port
      then outcome = .failed none
      else outcome.sent = some ⟨around.resolve host.val.chars, port,
        (requestText path.val.chars host.val.chars).take 255⟩ := by
  rw [httpGetOnce, if_neg (not_not_intro http)]
  dsimp only
  rw [hosted]
  dsimp only
  rw [ported]
  dsimp only
  rw [rooted, request_eq]
  split
  · exact ⟨_, rfl, rfl⟩
  · refine ⟨_, rfl, ?_⟩
    dsimp only
    split <;> rfl

theorem requestText_length (path host : List UInt8) :
    (requestText path host).length = path.length + host.length + 69 := by
  simp only [requestText, List.length_append, get, version, crlf, hostField, agentField, connectionField,
    List.length_cons, List.length_nil]
  omega

/-- What stands behind the Host header. -/
def requestTail : List UInt8 := agentField ++ crlf ++ connectionField ++ crlf ++ crlf

/-- No proper part of it ends with an empty line. -/
theorem requestTail_cut : ∀ k < 46, 2 ≤ k → crlf <:+ requestTail.take k →
    ¬ (k = 2 ∨ crlf <:+ requestTail.take (k - 2)) := by
  decide

/-- A request that is cut is no request. -/
theorem isRequest_iff (path host : List UInt8) :
    IsRequest path host ((requestText path host).take 255) ↔ host.length + path.length ≤ 186 := by
  have length := requestText_length path host
  constructor
  · rintro ⟨fields, ends, same⟩
    by_contra long
    generalize front : get ++ (path ++ ((version ++ crlf ++ hostField) ++ (host ++ crlf))) = pre at *
    have whole : requestText path host = pre ++ requestTail := by
      rw [← front, requestText, requestTail]
      simp only [List.append_assoc]
    have read : get ++ (path ++ ((version ++ crlf ++ hostField) ++ (host ++ (crlf ++ (fields ++ crlf))))) =
        pre ++ (fields ++ crlf) := by
      rw [← front]
      simp only [List.append_assoc]
    rw [whole] at same length
    rw [read] at same
    have tail : requestTail.length = 46 := rfl
    have crlf_ : crlf.length = 2 := rfl
    have lengths := congrArg List.length same
    rw [List.length_append] at length
    rw [List.length_take, List.length_append, List.length_append, List.length_append, crlf_, tail] at lengths
    rw [List.take_append, List.take_of_length_le (by omega)] at same
    have rest := List.append_cancel_left same
    have count : 255 - pre.length = fields.length + 2 := by omega
    rw [count] at rest
    refine requestTail_cut (fields.length + 2) (by omega) (by omega) ⟨fields, rest.symm⟩ ?_
    rcases ends with none_ | ends
    · exact .inl (by rw [none_]; rfl)
    · refine .inr ?_
      have cut : requestTail.take (fields.length + 2 - 2) = fields := by
        have again := congrArg (List.take fields.length) rest
        rw [List.take_take, List.take_append_of_le_length (Nat.le_refl _), List.take_length] at again
        rw [Nat.add_sub_cancel]
        rwa [Nat.min_eq_left (Nat.le_add_right _ _)] at again
      rw [cut]
      exact ends
  · intro short
    rw [List.take_of_length_le (by omega)]
    refine ⟨agentField ++ crlf ++ connectionField ++ crlf, .inr (List.suffix_append _ _), ?_⟩
    rw [requestText]
    simp only [List.append_assoc]

section Sites
variable (site : Site)

theorem Site.noNul : ∀ c ∈ site.host ++ site.path, c ≠ 0 := by
  intro c member zero
  have low := (site.visible c member).1
  rw [zero] at low
  exact absurd low (by decide)

theorem Site.path_stops : ∀ c ∈ (site.portText ++ site.path).head?, c = 58 ∨ c = 47 := by
  intro c member
  rw [Site.portText] at member
  cases port : site.port with
  | some digits =>
      rw [port] at member
      exact .inl (Option.some.inj member).symm
  | none =>
      rw [port] at member
      rcases site.rooted with none_ | slash
      · rw [Option.elim_none, List.nil_append, none_] at member
        cases member
      · rw [Option.elim_none, List.nil_append, slash] at member
        exact .inr (Option.some.inj member).symm

theorem Site.hosted : hostLoop 63 (site.text.drop 7) =
    (site.host.take 63, site.host.drop 63 ++ (site.portText ++ site.path)) :=
  hostLoop_of 63 _ site.plain.1 site.plain.2 site.path_stops

theorem Site.pathOf_path : pathOf site.path = site.target := by
  rw [pathOf, Site.target]
  rcases site.rooted with none_ | slash
  · rw [if_pos none_, none_]
    rfl
  · rw [if_pos slash, if_neg]
    intro none_
    rw [none_] at slash
    cases slash

/-- The port as the code reads it. -/
def Site.portRead (site : Site) : Nat := site.port.elim 80 fun digits => Printf.numeral digits % 2 ^ 16

theorem Site.ported : portOf (site.portText ++ site.path) = (site.portRead, site.path) := by
  rw [Site.portText, Site.portRead]
  have ends : ∀ c ∈ site.path.head?, isDigit c = false ∧ c ≠ 58 := by
    intro c member
    rcases site.rooted with none_ | slash
    · rw [none_] at member
      cases member
    · rw [slash] at member
      rw [← Option.some.inj member]
      decide
  cases port : site.port with
  | none =>
      refine portOf_none fun colon => ?_
      exact (ends 58 colon).2 rfl
  | some digits =>
      exact portOf_some (fun c => site.digits digits port c) fun c member => (ends c member).1

end Sites

/-- A resolver that knows one host, and a peer that always answers. -/
def knows (host : List UInt8) : Around := ⟨fun name => if name = host then 2 else 1, fun _ _ => true, true, true⟩

theorem Site.portRead_iff (site : Site) :
    site.portRead = site.portNumber ↔ site.port ≠ some [] ∧ site.portNumber < 2 ^ 16 := by
  rw [Site.portRead, Site.portNumber]
  cases site.port with
  | none => exact iff_of_true rfl ⟨(Option.some_ne_none []).symm, show 80 < 2 ^ 16 by decide⟩
  | some digits =>
      cases digits with
      | nil => exact iff_of_false (show ¬ 0 % 2 ^ 16 = 80 by decide) fun both => both.1 rfl
      | cons d digits =>
          have some_ : some (d :: digits) ≠ some [] := fun same => List.cons_ne_nil _ _ (Option.some.inj same)
          rw [and_iff_right some_]
          show Printf.numeral (d :: digits) % 2 ^ 16 = Printf.numeral (d :: digits) ↔
            Printf.numeral (d :: digits) < 2 ^ 16
          omega

section Sends
variable (site : Site)

theorem Site.target_str : ∃ target : Str, target.val.chars = site.target := by
  have noNul := List.forall_mem_append.mp site.noNul
  have short := site.short
  rw [Site.target]
  split
  · exact str_of [47] (by decide +kernel) (by decide)
  · exact str_of site.path noNul.2 (by omega)

theorem Site.host_str : ∃ host : Str, host.val.chars = site.host.take 63 := by
  have noNul := List.forall_mem_append.mp site.noNul
  apply str_of
  · exact fun c member => noNul.1 c (List.mem_of_mem_take member)
  · rw [List.length_take]
    omega

/-- A host that fits is asked for, and gets the request for the path. -/
theorem Site.sends (fits : site.host.length ≤ 63) (around : Around) (req : Buffer) (chunks : List Chunk) :
    ∃ outcome, httpGetOnce around req site.text chunks = some outcome ∧
      if around.resolve site.host = 0 ∨ ¬ around.connect (around.resolve site.host) site.portRead
      then outcome = .failed none
      else outcome.sent = some ⟨around.resolve site.host, site.portRead,
        (requestText site.target site.host).take 255⟩ := by
  obtain ⟨host, hostText⟩ := site.host_str
  obtain ⟨target, targetText⟩ := site.target_str
  have hosted := site.hosted
  rw [List.drop_eq_nil_of_le fits, List.nil_append, ← hostText] at hosted
  rw [List.take_of_length_le fits] at hostText
  have sends := httpGetOnce_sends around req chunks (List.prefix_append _ _ : scheme <+: site.text) hosted
    site.ported (site.pathOf_path.trans targetText.symm)
  rwa [hostText, targetText] at sends

/-- Of a host that does not fit, the first 63 characters are asked for. -/
theorem Site.sends_long (long : ¬ site.host.length ≤ 63) (around : Around) (req : Buffer)
    (chunks : List Chunk) :
    ∃ outcome, httpGetOnce around req site.text chunks = some outcome ∧
      if around.resolve (site.host.take 63) = 0 ∨ ¬ around.connect (around.resolve (site.host.take 63)) 80
      then outcome = .failed none
      else ∃ request, outcome.sent = some ⟨around.resolve (site.host.take 63), 80, request⟩ := by
  obtain ⟨host, hostText⟩ := site.host_str
  obtain ⟨c, rest, cut⟩ : ∃ c rest, site.host.drop 63 = c :: rest := by
    refine List.exists_cons_of_ne_nil fun none_ => long ?_
    exact List.drop_eq_nil_iff.mp none_
  have member : c ∈ site.host := List.mem_of_mem_drop (cut ▸ List.mem_cons_self)
  have hosted := site.hosted
  rw [cut, ← hostText] at hosted
  have ported : portOf (c :: rest ++ (site.portText ++ site.path)) =
      (80, c :: rest ++ (site.portText ++ site.path)) :=
    portOf_none fun colon => site.plain.1 (Option.some.inj colon ▸ member)
  obtain ⟨slash, slashText⟩ := str_of [47] (by decide +kernel) (by decide)
  have rooted : pathOf (c :: rest ++ (site.portText ++ site.path)) = slash.val.chars := by
    rw [slashText]
    exact if_neg fun (first : some c = some 47) => site.plain.2 (Option.some.inj first ▸ member)
  obtain ⟨outcome, got, sends⟩ := httpGetOnce_sends around req chunks
    (List.prefix_append _ _ : scheme <+: site.text) hosted ported rooted
  rw [hostText] at sends
  refine ⟨outcome, got, ?_⟩
  split at sends
  next failed =>
    rw [if_pos failed]
    exact sends
  next reached =>
    rw [if_neg reached]
    exact ⟨_, sends⟩

/-- What the resolver that knows the host tells about a whole request. -/
theorem Whole.known {site : Site} {outcome : Outcome} {sent : Sent}
    (whole : Whole (knows site.host) (.http site) outcome) (here : outcome.sent = some sent) :
    sent.dst = 2 ∧ sent.port = site.portNumber ∧ IsRequest site.target site.host sent.request := by
  rcases whole with ⟨none_, -⟩ | ⟨other, request, same, some_, whole⟩
  · cases none_.symm.trans here
  · obtain rfl := Url.http.inj same
    obtain rfl := Option.some.inj (some_.symm.trans here)
    exact ⟨if_pos rfl, rfl, whole⟩

end Sends

/-- For which URLs http_get_once never sends anything but a whole request to the host and
port of the URL, whatever answers it gets. -/
theorem request_whole_iff (url : Url) : (∀ (around : Around) (req : Buffer) (chunks : List Chunk),
    ∃ outcome, httpGetOnce around req url.text chunks = some outcome ∧ Whole around url outcome) ↔
      url.Fits := by
  cases url with
  | other text bad =>
      refine iff_of_true (fun around req chunks => ?_) trivial
      exact ⟨.failed none, by rw [httpGetOnce]; exact if_pos bad, .inl ⟨rfl, rfl⟩⟩
  | http site =>
      constructor
      · intro all
        obtain ⟨outcome, got, whole⟩ := all (knows site.host) (fun _ => 0) []
        have hostFits : site.host.length ≤ 63 := by
          by_contra long
          have other : site.host.take 63 ≠ site.host := fun same => by
            have length := congrArg List.length same
            rw [List.length_take] at length
            omega
          obtain ⟨outcome', got', sends⟩ := site.sends_long long (knows site.host) (fun _ => 0) []
          obtain rfl := Option.some.inj (got.symm.trans got')
          have answer : (knows site.host).resolve (site.host.take 63) = 1 := if_neg other
          rw [answer, if_neg (fun failed => failed.elim (by decide) fun no => no rfl)] at sends
          obtain ⟨request, sent⟩ := sends
          exact absurd (whole.known sent).1 (show ¬ 1 = 2 by decide)
        obtain ⟨outcome', got', sends⟩ := site.sends hostFits (knows site.host) (fun _ => 0) []
        obtain rfl := Option.some.inj (got.symm.trans got')
        have answer : (knows site.host).resolve site.host = 2 := if_pos rfl
        rw [answer, if_neg (fun failed => failed.elim (by decide) fun no => no rfl)] at sends
        obtain ⟨-, port, request⟩ := whole.known sends
        have ported := site.portRead_iff.mp port
        exact ⟨hostFits, ported.1, ported.2, (isRequest_iff _ _).mp request⟩
      · rintro ⟨hostFits, port, portFits, fits⟩ around req chunks
        obtain ⟨outcome, got, sends⟩ := site.sends hostFits around req chunks
        refine ⟨outcome, got, ?_⟩
        split at sends
        · rw [sends]
          exact .inl ⟨rfl, rfl⟩
        · rw [site.portRead_iff.mpr ⟨port, portFits⟩] at sends
          exact .inr ⟨site, _, rfl, sends, (isRequest_iff _ _).mpr fits⟩

/-- The host "h" and a path of 186 characters. -/
def longPath : Site where
  host := [104]
  port := none
  path := 47 :: List.replicate 185 97
  visible := by
    intro c member
    rcases List.mem_append.mp member with member | member
    · rw [List.mem_singleton.mp member]
      decide
    · rcases List.mem_cons.mp member with rfl | member
      · decide
      · rw [(List.mem_replicate.mp member).2]
        decide
  plain := by decide
  digits := fun _ none_ => by cases none_
  rooted := .inr rfl
  short := by
    simp only [List.length_cons, List.length_nil, List.length_replicate]
    decide

/-- The request for it is cut before its empty line. -/
theorem longPath_cut : ¬ ∀ (url : Url) (around : Around) (req : Buffer) (chunks : List Chunk),
    ∃ outcome, httpGetOnce around req url.text chunks = some outcome ∧ Whole around url outcome := by
  intro claim
  obtain ⟨outcome, got, whole⟩ := claim (.http longPath) (knows [104]) (fun _ => 0) []
  obtain ⟨outcome', got', sends⟩ := longPath.sends (by decide) (knows [104]) (fun _ => 0) []
  obtain rfl := Option.some.inj (got.symm.trans got')
  have answer : (knows [104]).resolve longPath.host = 2 := rfl
  rw [answer, if_neg (fun failed => failed.elim (by decide) fun no => no rfl)] at sends
  have short := (isRequest_iff _ _).mp (Whole.known whole sends).2.2
  have target : longPath.target = longPath.path := if_neg (List.cons_ne_nil _ _)
  rw [target] at short
  have long : longPath.host.length + longPath.path.length = 187 := by
    simp only [longPath, List.length_cons, List.length_nil, List.length_replicate]
  omega

end Zenbite.Http
