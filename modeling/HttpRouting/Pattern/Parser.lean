import HttpRouting.Pattern.Basic

/-!
Reading patterns. A pattern is a slash followed by segments joined with slashes; only the last
segment may be empty, and only the last may be a catch-all. `Pattern.Fault` lists what can be wrong.
-/

namespace HttpRouting

namespace Pattern

/-- Why a text is no pattern. -/
inductive Fault
  | noLeadingSlash
  | emptySegment
  | catchAllNotLast
  /-- A segment starts with a star, and what follows is no name. -/
  | badCatchAll (segment : Text)
  | unterminated
  | nested
  | unknownType (type : Text)
  | badName (name : Text)
  | unmatched
  deriving DecidableEq, Repr

end Pattern

namespace Token

/-- The parameter that stands between two braces: a name, or a name, a colon and a type. -/
def ofBraced (inner : Text) : Except Pattern.Fault Token :=
  if inner.contains '{' then .error .nested
  else
    let name := inner.takeWhile (· ≠ ':')
    match inner.dropWhile (· ≠ ':') with
    | [] => if Text.isName name then .ok (.param name .word) else .error (.badName name)
    | _ :: type =>
      if type = ['i', 'n', 't'] then
        if Text.isName name then .ok (.param name .int) else .error (.badName name)
      else .error (.unknownType type)

end Token

namespace Segment

/-- The literal collected so far as a token, unless it is empty. -/
def pending (literal : Text) : Segment :=
  if literal = [] then [] else [.literal literal]

/-- Reads tokens from left to right. `literal` is the literal text since the last token, and
`inner?` the text since an opening brace that has not been closed. -/
def scan (literal : Text) (inner? : Option Text) : Text → Except Pattern.Fault Segment
  | [] =>
    match inner? with
    | some _ => .error .unterminated
    | none => .ok (pending literal)
  | c :: rest =>
    match inner? with
    | some inner =>
      if c = '}' then
        match Token.ofBraced inner with
        | .error fault => .error fault
        | .ok token => (scan [] none rest).map fun more => pending literal ++ token :: more
      else scan literal (some (inner ++ [c])) rest
    | none =>
      if c = '{' then scan literal (some []) rest
      else if c = '}' then .error .unmatched
      else scan (literal ++ [c]) none rest

/-- The tokens of one segment. An empty segment is a single empty literal. -/
def parse (segment : Text) : Except Pattern.Fault Segment :=
  match segment with
  | '*' :: name => if Text.isName name then .ok [.catchAll name] else .error (.badCatchAll segment)
  | [] => .ok [.literal []]
  | _ => scan [] none segment

end Segment

namespace Pattern

/-- Reads the segments in order; the first fault found is reported. -/
def parseSegments : List Text → Except Fault (List Segment)
  | [] => .ok []
  | part :: more =>
    if more = [] then (Segment.parse part).map ([·])
    else if part = [] then .error .emptySegment
    else
      match Segment.parse part with
      | .error fault => .error fault
      | .ok segment =>
        if Segment.isCatchAll segment then .error .catchAllNotLast
        else (parseSegments more).map (segment :: ·)

/-- Reads a pattern such as `/users/{id:int}/files/*filepath`. -/
def parse : Text → Except Fault Pattern
  | '/' :: rest => (parseSegments (Text.split '/' rest)).map .mk
  | _ => .error .noLeadingSlash

end Pattern

end HttpRouting
