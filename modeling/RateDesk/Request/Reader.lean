import RateDesk.Request
import RateDesk.Text.Offset
import RateDesk.Number.Binary64
import RateDesk.Number.Digits

/-!
# Reading requests

A request body is strict JSON, read from left to right, and the first problem
decides.  It is an object in which the name `FXQL` occurs exactly once and has a
text; other names are skipped together with their values.  A list with exactly
one text is taken for the same request.

Three things can go wrong: the body is not JSON at some point, it ends too
early, or it is JSON so far but of another shape.

Main results:

- Theorem `Request.length_lt_of_readEscape`: reading an escape leaves a shorter
  text, so reading a quoted text ends.
-/

namespace RateDesk

/-- What is wrong with a request body. -/
inductive BodyError
  /-- It is not JSON at some point, or goes on behind its end. -/
  | malformed
  /-- It ends too early. -/
  | truncated
  /-- It is JSON so far, but no request. -/
  | misshapen
deriving DecidableEq, Repr

namespace Request

/-! ## Blanks and fixed words -/

/-- The blanks of JSON. -/
def isJsonBlank (c : Char) : Bool :=
  c = ' ' || c = '\n' || c = '\t' || c = '\r'

/-- A text without its leading blanks. -/
def skip (s : List Char) : List Char :=
  s.dropWhile isJsonBlank

/-- Take the rest of a fixed word off a text. -/
def readWord : List Char → List Char → Except BodyError (List Char)
  | [], s => .ok s
  | _ :: _, [] => .error .truncated
  | w :: word, c :: rest =>
      if w = c then readWord word rest else .error .malformed

/-! ## Quoted text -/

/-- The value of a hexadecimal digit in either letter case. -/
def hexValue? (c : Char) : Option Nat :=
  if '0' ≤ c ∧ c ≤ '9' then some (c.toNat - 48)
  else if 'a' ≤ c ∧ c ≤ 'f' then some (c.toNat - 87)
  else if 'A' ≤ c ∧ c ≤ 'F' then some (c.toNat - 55)
  else none

/-- The value of four hexadecimal digits. -/
def hexValue4? (a b c d : Char) : Option Nat := do
  return 4096 * (← hexValue? a) + 256 * (← hexValue? b) + 16 * (← hexValue? c) +
    (← hexValue? d)

/-- Read the four hexadecimal digits of an escape.  A text that ends within the
next four bytes is cut short; any other problem is a wrong digit. -/
def readHex (s : List Char) : Except BodyError (Nat × List Char) :=
  match s with
  | a :: b :: c :: d :: rest =>
      match hexValue4? a b c d with
      | some n => .ok (n, rest)
      | none => .error .malformed
  | _ => if Text.byteSize s < 4 then .error .truncated else .error .malformed

/-- Whether a code unit is the first half of a pair. -/
def isLeading (n : Nat) : Bool :=
  0xD800 ≤ n && n ≤ 0xDBFF

/-- Whether a code unit is the second half of a pair. -/
def isTrailing (n : Nat) : Bool :=
  0xDC00 ≤ n && n ≤ 0xDFFF

/-- Take an expected character of an escape off a text. -/
def readMark (mark : Char) : List Char → Except BodyError (List Char)
  | [] => .error .truncated
  | c :: rest => if c = mark then .ok rest else .error .malformed

/-- Read the code of an escape by code.  Characters beyond U+FFFF are written as
two escapes, the first half before the second; a half on its own is no
character. -/
def readCode (s : List Char) : Except BodyError (Char × List Char) := do
  let (n, rest) ← readHex s
  if isTrailing n then .error .malformed
  else if isLeading n then
    let rest ← readMark '\\' rest
    let rest ← readMark 'u' rest
    let (m, rest) ← readHex rest
    if isTrailing m then
      .ok (Char.ofNat (0x10000 + (n - 0xD800) * 0x400 + (m - 0xDC00)), rest)
    else .error .malformed
  else .ok (Char.ofNat n, rest)

/-- The character of a short escape. -/
def shortEscape? (c : Char) : Option Char :=
  match c with
  | '"' => some '"'
  | '\\' => some '\\'
  | '/' => some '/'
  | 'b' => some '\x08'
  | 'f' => some '\x0c'
  | 'n' => some '\n'
  | 'r' => some '\r'
  | 't' => some '\t'
  | _ => none

/-- Read an escape behind its backslash. -/
def readEscape : List Char → Except BodyError (Char × List Char)
  | [] => .error .truncated
  | c :: rest =>
      if c = 'u' then readCode rest
      else
        match shortEscape? c with
        | some value => .ok (value, rest)
        | none => .error .malformed

/-- Reading four digits leaves a shorter text. -/
theorem length_lt_of_readHex {s rest : List Char} {n : Nat}
    (h : readHex s = .ok (n, rest)) : rest.length < s.length := by
  unfold readHex at h
  split at h
  next a b c d tail =>
    split at h
    next m hm =>
      simp only [Except.ok.injEq, Prod.mk.injEq] at h
      rw [← h.2]
      simp only [List.length_cons]
      omega
    next => simp at h
  next => split at h <;> simp at h

/-- Reading a mark leaves a shorter text. -/
theorem length_lt_of_readMark {mark : Char} {s rest : List Char}
    (h : readMark mark s = .ok rest) : rest.length < s.length := by
  cases s with
  | nil => simp [readMark] at h
  | cons c tail =>
      simp only [readMark] at h
      split at h
      next =>
        simp only [Except.ok.injEq] at h
        rw [← h]
        simp
      next => simp at h

/-- Reading a code leaves a shorter text. -/
theorem length_lt_of_readCode {s rest : List Char} {c : Char}
    (h : readCode s = .ok (c, rest)) : rest.length < s.length := by
  unfold readCode at h
  cases hfirst : readHex s with
  | error e => simp [hfirst, bind, Except.bind] at h
  | ok first =>
      have hlt := length_lt_of_readHex hfirst
      simp only [hfirst, bind, Except.bind] at h
      split at h
      next => simp at h
      next =>
        split at h
        next =>
          cases hslash : readMark '\\' first.2 with
          | error e => simp [hslash] at h
          | ok tail =>
              have hlt1 := length_lt_of_readMark hslash
              simp only [hslash] at h
              cases hmark : readMark 'u' tail with
              | error e => simp [hmark] at h
              | ok digits =>
                  have hlt2 := length_lt_of_readMark hmark
                  simp only [hmark] at h
                  cases hsecond : readHex digits with
                  | error e => simp [hsecond] at h
                  | ok second =>
                      have hlt3 := length_lt_of_readHex hsecond
                      simp only [hsecond] at h
                      split at h
                      next =>
                        simp only [Except.ok.injEq, Prod.mk.injEq] at h
                        rw [← h.2]
                        omega
                      next => simp at h
        next =>
          simp only [Except.ok.injEq, Prod.mk.injEq] at h
          rw [← h.2]
          exact hlt

/-- Reading an escape leaves a shorter text. -/
theorem length_lt_of_readEscape {s rest : List Char} {c : Char}
    (h : readEscape s = .ok (c, rest)) : rest.length < s.length := by
  cases s with
  | nil => simp [readEscape] at h
  | cons d tail =>
      simp only [readEscape] at h
      split at h
      next =>
        have hlt := length_lt_of_readCode h
        simp only [List.length_cons]
        omega
      next =>
        split at h
        next =>
          simp only [Except.ok.injEq, Prod.mk.injEq] at h
          rw [← h.2]
          simp
        next => simp at h

/-- Read a quoted text behind its opening quotation mark, up to and including
the closing one. -/
def readQuoted (s : List Char) : Except BodyError (List Char × List Char) :=
  match s with
  | [] => .error .truncated
  | c :: rest =>
      if c = '"' then .ok ([], rest)
      else if c = '\\' then
        match _h : readEscape rest with
        | .error e => .error e
        | .ok (value, tail) =>
            (readQuoted tail).map fun found => (value :: found.1, found.2)
      else if c.toNat < 32 then .error .malformed
      else (readQuoted rest).map fun found => (c :: found.1, found.2)
termination_by s.length
decreasing_by
  · have hlt := length_lt_of_readEscape (by assumption)
    simp only [List.length_cons]
    omega
  · simp

/-! ## Skipped values

The value of an unknown name only has to follow the grammar.  In quoted text
halves of pairs may stand alone, and numbers may have any size. -/

/-- Skip a quoted text behind its opening quotation mark. -/
def skipQuoted : List Char → Except BodyError (List Char)
  | [] => .error .truncated
  | '"' :: rest => .ok rest
  | ['\\'] => .error .truncated
  | '\\' :: 'u' :: rest =>
      match readHex rest with
      | .error e => .error e
      | .ok _ => skipQuoted rest
  | '\\' :: c :: rest =>
      if (shortEscape? c).isSome then skipQuoted rest else .error .malformed
  | c :: rest => if c.toNat < 32 then .error .malformed else skipQuoted rest

/-- Skip one digit or more. -/
def skipDigits (s : List Char) : Except BodyError (List Char) :=
  match s with
  | c :: rest =>
      if c.isDigit then .ok (rest.dropWhile Char.isDigit) else .error .malformed
  | [] => .error .malformed

/-- Skip an exponent, if there is one. -/
def skipExponent (s : List Char) : Except BodyError (List Char) :=
  match s with
  | c :: rest =>
      if c = 'e' ∨ c = 'E' then
        match rest with
        | '+' :: digits => skipDigits digits
        | '-' :: digits => skipDigits digits
        | digits => skipDigits digits
      else .ok s
  | [] => .ok s

/-- Skip a number without its sign. -/
def skipNumber (s : List Char) : Except BodyError (List Char) := do
  let rest ←
    match s with
    | '0' :: c :: rest =>
        if c.isDigit then .error .malformed else .ok (c :: rest)
    | _ => skipDigits s
  match rest with
  | '.' :: fraction => skipExponent (← skipDigits fraction)
  | _ => skipExponent rest

mutual

/-- Skip a value.  The first argument bounds the depth of nested calls, of which
there are at most two for each character. -/
def skipValue : Nat → List Char → Except BodyError (List Char)
  | 0, _ => .error .truncated
  | fuel + 1, s =>
      match skip s with
      | [] => .error .truncated
      | 'n' :: rest => readWord ['u', 'l', 'l'] rest
      | 't' :: rest => readWord ['r', 'u', 'e'] rest
      | 'f' :: rest => readWord ['a', 'l', 's', 'e'] rest
      | '"' :: rest => skipQuoted rest
      | '-' :: rest => skipNumber rest
      | '[' :: rest =>
          match skip rest with
          | ']' :: tail => .ok tail
          | [] => .error .truncated
          | tail => skipItems fuel tail
      | '{' :: rest =>
          match skip rest with
          | '}' :: tail => .ok tail
          | tail => skipMembers fuel tail
      | c :: rest =>
          if c.isDigit then skipNumber (c :: rest) else .error .malformed

/-- Skip the items of a list and its closing bracket. -/
def skipItems : Nat → List Char → Except BodyError (List Char)
  | 0, _ => .error .truncated
  | fuel + 1, s => do
      let rest ← skipValue fuel s
      match skip rest with
      | [] => .error .truncated
      | ']' :: tail => .ok tail
      | ',' :: tail => skipItems fuel tail
      | _ => .error .malformed

/-- Skip the members of an object and its closing brace. -/
def skipMembers : Nat → List Char → Except BodyError (List Char)
  | 0, _ => .error .truncated
  | fuel + 1, s =>
      match skip s with
      | [] => .error .truncated
      | '"' :: rest => do
          let behindName ← skipQuoted rest
          match skip behindName with
          | [] => .error .truncated
          | ':' :: value => do
              let behind ← skipValue fuel value
              match skip behind with
              | [] => .error .truncated
              | '}' :: tail => .ok tail
              | ',' :: tail => skipMembers fuel tail
              | _ => .error .malformed
          | _ => .error .malformed
      | _ => .error .malformed

end

/-! ## Numbers where a text is due

A number in place of the text makes the request misshapen, provided that it is a
number; one beyond the range of doubles is not.  Its size is judged by as many
leading digits as fit in 64 bits, times the power of ten of the others. -/

/-- A number as a significand of 64 bits times a power of ten. -/
structure Magnitude where
  significand : Nat
  exponent : Int

/-- Significands lie below this bound. -/
def significandBound : Nat := Nat.pow 2 64

/-- Whether a number is beyond the range of doubles. -/
def Magnitude.overflows (m : Magnitude) : Bool :=
  m.significand != 0 && decide (0 ≤ m.exponent) &&
    (decide (308 < m.exponent) ||
      ((Binary64.ofNat m.significand).mul
        (Binary64.ofNat (Nat.pow 10 m.exponent.toNat))).overflows)

/-- Take in digits before the point while they fit; the others count as
zeros. -/
def Magnitude.addWhole (m : Magnitude) : List Digit → Magnitude
  | [] => m
  | d :: rest =>
      if 10 * m.significand + d.val < significandBound then
        addWhole ⟨10 * m.significand + d.val, m.exponent⟩ rest
      else ⟨m.significand, m.exponent + ((d :: rest).length : Int)⟩

/-- Take in digits behind the point while they fit; the others are dropped. -/
def Magnitude.addFraction (m : Magnitude) : List Digit → Magnitude
  | [] => m
  | d :: rest =>
      if 10 * m.significand + d.val < significandBound then
        addFraction ⟨10 * m.significand + d.val, m.exponent - 1⟩ rest
      else m

/-- The leading digits of a text. -/
def leadingDigits (s : List Char) : List Digit :=
  (s.takeWhile Char.isDigit).filterMap Digit.ofChar?

/-- Read one digit or more. -/
def readDigits (s : List Char) : Except BodyError (List Digit × List Char) :=
  match s with
  | [] => .error .truncated
  | c :: _ =>
      if c.isDigit then .ok (leadingDigits s, s.dropWhile Char.isDigit)
      else .error .malformed

/-- Read an exponent, if there is one. -/
def readExponent (s : List Char) : Except BodyError (Int × List Char) :=
  match s with
  | c :: rest =>
      if c = 'e' ∨ c = 'E' then
        match rest with
        | '-' :: digits =>
            (readDigits digits).map fun found =>
              (-(Digits.value found.1 : Int), found.2)
        | '+' :: digits =>
            (readDigits digits).map fun found =>
              ((Digits.value found.1 : Int), found.2)
        | digits =>
            (readDigits digits).map fun found =>
              ((Digits.value found.1 : Int), found.2)
      else .ok (0, s)
  | [] => .ok (0, s)

/-- Read a number without its sign. -/
def readNumber (s : List Char) : Except BodyError (Magnitude × List Char) := do
  let (whole, rest) ←
    match s with
    | '0' :: c :: rest =>
        if c.isDigit then .error .malformed else .ok ([Digit.zero], c :: rest)
    | _ => readDigits s
  let m := Magnitude.addWhole ⟨0, 0⟩ whole
  let (m, rest) ←
    match rest with
    | '.' :: digits => (readDigits digits).map fun found =>
        (m.addFraction found.1, found.2)
    | _ => .ok (m, rest)
  let (exponent, rest) ← readExponent rest
  return (⟨m.significand, m.exponent + exponent⟩, rest)

/-- The error for a number where a text is due. -/
def numberError (s : List Char) : BodyError :=
  match readNumber s with
  | .error e => e
  | .ok (m, _) => if m.overflows then .malformed else .misshapen

/-- The error for a fixed word where a text is due. -/
def wordError (word s : List Char) : BodyError :=
  match readWord word s with
  | .error e => e
  | .ok _ => .misshapen

/-- The error for anything else than what is due. -/
def otherError : List Char → BodyError
  | [] => .truncated
  | 'n' :: rest => wordError ['u', 'l', 'l'] rest
  | 't' :: rest => wordError ['r', 'u', 'e'] rest
  | 'f' :: rest => wordError ['a', 'l', 's', 'e'] rest
  | '-' :: rest => numberError rest
  | '"' :: rest =>
      match readQuoted rest with
      | .error e => e
      | .ok _ => .misshapen
  | '[' :: _ => .misshapen
  | '{' :: _ => .misshapen
  | c :: rest => if c.isDigit then numberError (c :: rest) else .malformed

/-! ## The request itself -/

/-- Read the text of a request. -/
def readText (s : List Char) : Except BodyError (List Char × List Char) :=
  match skip s with
  | '"' :: rest => readQuoted rest
  | other => .error (otherError other)

/-- Read on behind a name, over the colon. -/
def readColon (s : List Char) : Except BodyError (List Char) :=
  match skip s with
  | [] => .error .truncated
  | ':' :: rest => .ok rest
  | _ => .error .malformed

/-- Read the value of a name.  The text read so far comes in and goes out. -/
def readMember (found : Option (List Char)) (s : List Char) :
    Except BodyError (Option (List Char) × List Char) := do
  let (key, rest) ← readQuoted s
  if key = name.toList then
    if found.isSome then .error .misshapen
    else
      let (value, rest) ← readText (← readColon rest)
      return (some value, rest)
  else
    let value ← readColon rest
    let rest ← skipValue (2 * value.length + 2) value
    return (found, rest)

/-- Read the members of an object behind the opening quotation mark of a name,
up to and including the closing brace.  The first argument bounds their
number. -/
def readMembers : Nat → Option (List Char) → List Char →
    Except BodyError (List Char × List Char)
  | 0, _, _ => .error .truncated
  | fuel + 1, found, s => do
      let (found, rest) ← readMember found s
      match skip rest with
      | [] => .error .truncated
      | '}' :: tail =>
          match found with
          | some value => .ok (value, tail)
          | none => .error .misshapen
      | ',' :: tail =>
          match skip tail with
          | [] => .error .truncated
          | '"' :: next => readMembers fuel found next
          | _ => .error .malformed
      | _ => .error .malformed

/-- Read an object behind its opening brace. -/
def readObject (s : List Char) : Except BodyError (List Char × List Char) :=
  match skip s with
  | [] => .error .truncated
  | '}' :: _ => .error .misshapen
  | '"' :: rest => readMembers (rest.length + 1) none rest
  | _ => .error .malformed

/-- Read a list of one text behind its opening bracket. -/
def readSingleton (s : List Char) : Except BodyError (List Char × List Char) :=
  match skip s with
  | [] => .error .truncated
  | ']' :: _ => .error .misshapen
  | start => do
      let (value, rest) ← readText start
      match skip rest with
      | [] => .error .truncated
      | ']' :: tail => .ok (value, tail)
      | _ => .error .malformed

/-- Read a request body. -/
def read (body : String) : Except BodyError Request := do
  let (value, rest) ←
    match skip body.toList with
    | '{' :: inside => readObject inside
    | '[' :: inside => readSingleton inside
    | other => .error (otherError other)
  if (skip rest).isEmpty then return ⟨String.ofList value⟩
  else .error .malformed

end Request

end RateDesk
