namespace StackMachine.Toml

/-- Reads something off the front of a text, and leaves the rest. -/
abbrev Reader (α : Type) := List Char → Option (α × List Char)

def isBlank (c : Char) : Bool := c == ' ' || c == '\t'

def isPrintable (c : Char) : Bool :=
  c == '\t' || (decide (0x20 ≤ c.toNat) && decide (c.toNat ≠ 0x7f))

def skipBlanks (cs : List Char) : List Char := cs.dropWhile isBlank

def lineFeed? : List Char → Option (List Char)
  | '\n' :: rest => some rest
  | '\r' :: '\n' :: rest => some rest
  | _ => none

def lineEnd? (cs : List Char) : Option (List Char) :=
  let rest :=
    match skipBlanks cs with
    | '#' :: rest => rest.dropWhile isPrintable
    | rest => rest
  match rest with
  | [] => some []
  | _ => lineFeed? rest

def skipLines : Bool → List Char → List Char
  | _, '\n' :: rest => skipLines false rest
  | _, '\r' :: '\n' :: rest => skipLines false rest
  | true, c :: rest => if isPrintable c then skipLines true rest else c :: rest
  | false, '#' :: rest => skipLines true rest
  | false, c :: rest => if isBlank c then skipLines false rest else c :: rest
  | _, [] => []

def hexDigit? (c : Char) : Option Nat :=
  if c.isDigit then some (c.toNat - '0'.toNat)
  else if 'a' ≤ c ∧ c ≤ 'f' then some (c.toNat - 'a'.toNat + 10)
  else if 'A' ≤ c ∧ c ≤ 'F' then some (c.toNat - 'A'.toNat + 10)
  else none

def ofHexDigits? (cs : List Char) : Option Nat :=
  cs.foldlM (fun n c => (hexDigit? c).map (16 * n + ·)) 0

def scalar? (digits : List Char) : Option Char :=
  (ofHexDigits? digits).bind fun n => if n.isValidChar then some (Char.ofNat n) else none

def escape? : Char → Option Char
  | 'b' => some '\x08'
  | 't' => some '\t'
  | 'n' => some '\n'
  | 'f' => some '\x0c'
  | 'r' => some '\r'
  | '\x22' => some '\x22'
  | '\\' => some '\\'
  | _ => none

def prepend (c : Char) : List Char × List Char → List Char × List Char
  | (text, rest) => (c :: text, rest)

def basicText : Reader (List Char)
  | '\x22' :: rest => some ([], rest)
  | '\\' :: 'u' :: a :: b :: c :: d :: rest =>
    (scalar? [a, b, c, d]).bind fun x => (basicText rest).map (prepend x)
  | '\\' :: 'U' :: a :: b :: c :: d :: e :: f :: g :: h :: rest =>
    (scalar? [a, b, c, d, e, f, g, h]).bind fun x => (basicText rest).map (prepend x)
  | '\\' :: c :: rest => (escape? c).bind fun x => (basicText rest).map (prepend x)
  | c :: rest =>
    if isPrintable c && c != '\\' then (basicText rest).map (prepend c) else none
  | [] => none

def literalText : Reader (List Char)
  | '\x27' :: rest => some ([], rest)
  | c :: rest => if isPrintable c then (literalText rest).map (prepend c) else none
  | [] => none

def endsLine (cs : List Char) : Bool := (lineFeed? (skipBlanks cs)).isSome

/-- Text of several lines up to three double quotes, before which one or two more may stand. A
backslash at the end of a line hides the blanks and line ends that follow; `hiding` says that they
are being skipped. -/
def basicLines : Bool → Reader (List Char)
  | true, ' ' :: rest => basicLines true rest
  | true, '\t' :: rest => basicLines true rest
  | true, '\n' :: rest => basicLines true rest
  | true, '\r' :: '\n' :: rest => basicLines true rest
  | _, '\x22' :: '\x22' :: '\x22' :: '\x22' :: '\x22' :: rest => some (['\x22', '\x22'], rest)
  | _, '\x22' :: '\x22' :: '\x22' :: '\x22' :: rest => some (['\x22'], rest)
  | _, '\x22' :: '\x22' :: '\x22' :: rest => some ([], rest)
  | _, '\\' :: 'u' :: a :: b :: c :: d :: rest =>
    (scalar? [a, b, c, d]).bind fun x => (basicLines false rest).map (prepend x)
  | _, '\\' :: 'U' :: a :: b :: c :: d :: e :: f :: g :: h :: rest =>
    (scalar? [a, b, c, d, e, f, g, h]).bind fun x => (basicLines false rest).map (prepend x)
  | _, '\\' :: c :: rest =>
    if endsLine (c :: rest) then basicLines true (c :: rest)
    else (escape? c).bind fun x => (basicLines false rest).map (prepend x)
  | _, '\n' :: rest => (basicLines false rest).map (prepend '\n')
  | _, '\r' :: '\n' :: rest => (basicLines false rest).map (prepend '\n')
  | _, c :: rest =>
    if isPrintable c && c != '\\' then (basicLines false rest).map (prepend c) else none
  | _, [] => none

def literalLines : Reader (List Char)
  | '\x27' :: '\x27' :: '\x27' :: '\x27' :: '\x27' :: rest => some (['\x27', '\x27'], rest)
  | '\x27' :: '\x27' :: '\x27' :: '\x27' :: rest => some (['\x27'], rest)
  | '\x27' :: '\x27' :: '\x27' :: rest => some ([], rest)
  | '\n' :: rest => (literalLines rest).map (prepend '\n')
  | '\r' :: '\n' :: rest => (literalLines rest).map (prepend '\n')
  | c :: rest => if isPrintable c then (literalLines rest).map (prepend c) else none
  | [] => none

def skipLineFeed (cs : List Char) : List Char := (lineFeed? cs).getD cs

def quoted : Reader (List Char)
  | '\x22' :: '\x22' :: '\x22' :: rest => basicLines false (skipLineFeed rest)
  | '\x22' :: rest => basicText rest
  | '\x27' :: '\x27' :: '\x27' :: rest => literalLines (skipLineFeed rest)
  | '\x27' :: rest => literalText rest
  | _ => none

def isKeyChar (c : Char) : Bool := c.isAlphanum || c == '_' || c == '-'

def simpleKey : Reader String
  | '\x22' :: rest => (basicText rest).map fun (text, rest) => (String.ofList text, rest)
  | '\x27' :: rest => (literalText rest).map fun (text, rest) => (String.ofList text, rest)
  | cs =>
    match cs.takeWhile isKeyChar with
    | [] => none
    | name => some (String.ofList name, cs.dropWhile isKeyChar)

def keyPath : Nat → Reader (List String)
  | 0, _ => none
  | limit + 1, cs =>
    match simpleKey (skipBlanks cs) with
    | none => none
    | some (key, rest) =>
      match skipBlanks rest with
      | '.' :: rest => (keyPath limit rest).map fun (keys, rest) => (key :: keys, rest)
      | rest => some ([key], rest)

/-- Keys have fewer than eighty parts, and values nest less than eighty deep. -/
def nestingLimit : Nat := 79

end StackMachine.Toml
