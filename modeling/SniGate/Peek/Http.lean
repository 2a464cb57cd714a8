import SniGate.Bytes.Basic
import Mathlib.Data.List.DropRight

/-!
# Reading the Host header from a request head

The peek window holds header bytes followed by body bytes, and only the head is text. So the head
is bounded first, by its blank line, and then scanned as raw byte lines; nothing but the value of
the `Host` line has to decode.
-/

namespace SniGate

/-- What the request parser concludes from a buffer. -/
inductive HttpParse
  | host (name : Str)
  | noHost
  | needMore
  | notHttp
deriving DecidableEq, Repr

/-! ## Bytes as ASCII text -/

/-- `u8::is_ascii_whitespace`. -/
def isAsciiWhitespace (c : UInt8) : Bool :=
  c = 0x20 ∨ c = 0x09 ∨ c = 0x0a ∨ c = 0x0c ∨ c = 0x0d

/-- `<[u8]>::trim_ascii`. -/
def trimAscii (b : Bytes) : Bytes := (b.dropWhile isAsciiWhitespace).rdropWhile isAsciiWhitespace

/-- `u8::to_ascii_lowercase`. -/
def toAsciiLowercase (c : UInt8) : UInt8 := if 0x41 ≤ c ∧ c ≤ 0x5a then c + 0x20 else c

/-- `<[u8]>::eq_ignore_ascii_case`. -/
def eqIgnoreAsciiCase (a b : Bytes) : Bool := a.map toAsciiLowercase = b.map toAsciiLowercase

/-- `<[u8]>::strip_suffix`, with the slice itself when it does not end so. -/
def stripCr (line : Bytes) : Bytes := if line.getLast? = some 0x0d then line.dropLast else line

/-! ## The parser -/

/-- The method tokens a request line may begin with. -/
def methods : List Bytes :=
  ["GET ", "POST ", "PUT ", "HEAD ", "DELE", "OPTI", "PATC", "TRAC", "CONN"].map
    fun m ↦ toUtf8 m.toList

/-- True if the buffer plausibly starts an HTTP request line. -/
def looksLikeHttp (b : Bytes) : Bool :=
  methods.any fun m ↦ m.length ≤ b.length ∧ b.take m.length = m

/-- `headerBlockEnd` from index `i` on. -/
def headerBlockEndFrom (i : ℕ) : Bytes → Option ℕ
  | [] => none
  | c :: rest =>
    if c = 0x0a then
      match rest with
      | 0x0a :: _ => some (i + 2)
      | 0x0d :: 0x0a :: _ => some (i + 3)
      | _ => headerBlockEndFrom (i + 1) rest
    else headerBlockEndFrom (i + 1) rest

/-- The index one past the blank line ending the header block, or `none` when the terminator is not
in `b` yet. -/
def headerBlockEnd (b : Bytes) : Option ℕ := headerBlockEndFrom 0 b

/-- The answer given by the value of a Host line. -/
def hostValue (value : Bytes) : HttpParse :=
  match fromUtf8 (trimAscii value) with
  | some host => if host ≠ [] then .host host else .noHost
  | none => .noHost

/-- Scan the lines of a head up to its blank line; `none` when there is no Host line among them. -/
def scanHeaderLines : List Bytes → Option HttpParse
  | [] => none
  | line :: lines =>
    let line := stripCr line
    if line = [] then none
    else
      match line.findIdx? (· = 0x3a) with
      | none => scanHeaderLines lines
      | some colon =>
        if eqIgnoreAsciiCase (trimAscii (line.take colon)) (toUtf8 "host".toList) then
          some (hostValue (line.drop (colon + 1)))
        else scanHeaderLines lines

/-- Extract the `Host` header from a plaintext HTTP request head. -/
def parseHttpHost (b : Bytes) : HttpParse :=
  if !looksLikeHttp b then .notHttp
  else
    let headEnd := headerBlockEnd b
    let head :=
      match headEnd with
      | some e => b.take e
      | none => b
    match scanHeaderLines (head.splitOn 0x0a) with
    | some answer => answer
    | none => if headEnd.isSome then .noHost else .needMore

end SniGate
