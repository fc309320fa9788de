import Mathlib.Data.List.DropRight
import Mathlib.Tactic.Common

/-! # URLs

Splitting a URL and undoing percent-encoding, as the standard library does both. Bytes that are
not UTF-8 are replaced, one mark for each longest part of a sequence that could have gone on.
-/

namespace Url

/-! ### Percent-encoding -/

/-- A sequence that has begun: its bits so far, how many bytes it lacks, and the bounds on the
next one. -/
structure Pending where
  bits : ℕ
  missing : ℕ
  low : ℕ
  high : ℕ

def replacement : Char := '\uFFFD'

def beginSequence (b : ℕ) : List Char × Option Pending :=
  if b < 0x80 then ([Char.ofNat b], none)
  else if 0xc2 ≤ b ∧ b ≤ 0xdf then ([], some ⟨b % 32, 1, 0x80, 0xbf⟩)
  else if b = 0xe0 then ([], some ⟨0, 2, 0xa0, 0xbf⟩)
  -- surrogates have no encoding
  else if b = 0xed then ([], some ⟨13, 2, 0x80, 0x9f⟩)
  else if 0xe1 ≤ b ∧ b ≤ 0xef then ([], some ⟨b % 16, 2, 0x80, 0xbf⟩)
  else if b = 0xf0 then ([], some ⟨0, 3, 0x90, 0xbf⟩)
  else if 0xf1 ≤ b ∧ b ≤ 0xf3 then ([], some ⟨b % 8, 3, 0x80, 0xbf⟩)
  else if b = 0xf4 then ([], some ⟨4, 3, 0x80, 0x8f⟩)
  else ([replacement], none)

def feed : Option Pending → ℕ → List Char × Option Pending
  | none, b => beginSequence b
  | some p, b =>
    if p.low ≤ b ∧ b ≤ p.high then
      let bits := p.bits * 64 + b % 64
      if p.missing = 1 then ([Char.ofNat bits], none)
      else ([], some ⟨bits, p.missing - 1, 0x80, 0xbf⟩)
    else (replacement :: (beginSequence b).1, (beginSequence b).2)

/-- `bytes.decode("utf-8", "replace")`. -/
def decodeReplace : Option Pending → List ℕ → List Char
  | none, [] => []
  | some _, [] => [replacement]
  | state, b :: rest => (feed state b).1 ++ decodeReplace (feed state b).2 rest

def hexDigit (c : Char) : Option ℕ :=
  if '0' ≤ c ∧ c ≤ '9' then some (c.toNat - '0'.toNat)
  else if 'a' ≤ c ∧ c ≤ 'f' then some (c.toNat - 'a'.toNat + 10)
  else if 'A' ≤ c ∧ c ≤ 'F' then some (c.toNat - 'A'.toNat + 10)
  else none

def unquoteToBytes : List Char → List ℕ
  | '%' :: a :: b :: rest =>
    match hexDigit a, hexDigit b with
    | some x, some y => (16 * x + y) :: unquoteToBytes rest
    | _, _ => '%'.toNat :: unquoteToBytes (a :: b :: rest)
  | c :: rest => c.toNat :: unquoteToBytes rest
  | [] => []

def isAscii (c : Char) : Bool := c.toNat < 128

def unquote (value : List Char) : List Char :=
  (value.splitBy fun a b => isAscii a == isAscii b).flatMap fun run =>
    if run.all isAscii then decodeReplace none (unquoteToBytes run) else run

/-! ### Splitting -/

structure SplitUrl where
  scheme : List Char
  netloc : List Char
  path : List Char
  query : List Char
  fragment : List Char

def isAlpha (c : Char) : Bool := c.isUpper || c.isLower

def isSchemeChar (c : Char) : Bool := isAlpha c || c.isDigit || ['+', '-', '.'].contains c

/-- `s.split(sep, 1)`; nothing stands for no separator. -/
def splitOnce (separator : Char) (s : List Char) : List Char × Option (List Char) :=
  match s.span (· != separator) with
  | (before, _ :: after) => (before, some after)
  | (before, []) => (before, none)

/-- `urlsplit`, or what it raises. Which hosts and which characters it refuses is not fixed. -/
def urlsplit (refusal : List Char → Option String) (url : List Char) : Except String SplitUrl :=
  let url := (url.dropWhile fun c => c.toNat ≤ 32).filter (! ['\t', '\r', '\n'].contains ·)
  let (scheme, url) :=
    match splitOnce ':' url with
    | (name, some rest) =>
      if name.head?.any isAlpha && name.all isSchemeChar then (name.map Char.toLower, rest)
      else ([], url)
    | (_, none) => ([], url)
  let (netloc, url) :=
    match url with
    | '/' :: '/' :: rest => rest.span (! ['/', '?', '#'].contains ·)
    | _ => ([], url)
  if netloc.contains '[' != netloc.contains ']' then .error "Invalid IPv6 URL"
  else
    match refusal netloc with
    | some message => .error message
    | none =>
      let (url, fragment) := splitOnce '#' url
      let (path, query) := splitOnce '?' url
      .ok ⟨scheme, netloc, path, query.getD [], fragment.getD []⟩

namespace SplitUrl

variable (u : SplitUrl)

def hostinfo : List Char := u.netloc.rtakeWhile (· != '@')

def hostname : List Char :=
  match splitOnce '[' u.hostinfo with
  | (_, some bracketed) => bracketed.takeWhile (· != ']')
  | (_, none) => u.hostinfo.takeWhile (· != ':')

def password : Option (List Char) :=
  if u.netloc.contains '@' then (splitOnce ':' (u.netloc.rdropWhile (· != '@')).dropLast).2
  else none

end SplitUrl

example : unquote "/srv/%7Ea%2".toList = "/srv/~a%2".toList := by decide

end Url
