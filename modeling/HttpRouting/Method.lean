import HttpRouting.Text.Basic

/-!
Request methods: non-empty tokens, told apart by letter case. `Method.supported` are the methods
that routes may be registered for, in the order in which allow lists name them.
-/

namespace HttpRouting

namespace Method

/-- The punctuation that a token may hold beside letters and digits. -/
def punctuation : List Char :=
  ['!', '#', '$', '%', '&', '\x27', '*', '+', '-', '.', '^', '_', '\x60', '|', '~']

def isTokenChar (c : Char) : Bool := c.isAlphanum || punctuation.contains c

def isToken (t : Text) : Bool := !t.isEmpty && t.all isTokenChar

end Method

/-- A request method. -/
structure Method where
  token : Text
  valid : Method.isToken token = true
  deriving DecidableEq

namespace Method

/-- The method that a text names, if it is a token. -/
def ofText? (t : Text) : Option Method :=
  if h : isToken t = true then some ⟨t, h⟩ else none

def name (m : Method) : String := String.ofList m.token

instance : Repr Method := ⟨fun m _ => m.name⟩

def get : Method := ⟨['G', 'E', 'T'], by decide⟩
def post : Method := ⟨['P', 'O', 'S', 'T'], by decide⟩
def put : Method := ⟨['P', 'U', 'T'], by decide⟩
def delete : Method := ⟨['D', 'E', 'L', 'E', 'T', 'E'], by decide⟩
def patch : Method := ⟨['P', 'A', 'T', 'C', 'H'], by decide⟩
def options : Method := ⟨['O', 'P', 'T', 'I', 'O', 'N', 'S'], by decide⟩
def head : Method := ⟨['H', 'E', 'A', 'D'], by decide⟩
def trace : Method := ⟨['T', 'R', 'A', 'C', 'E'], by decide⟩
def connect : Method := ⟨['C', 'O', 'N', 'N', 'E', 'C', 'T'], by decide⟩

/-- The methods that routes may be registered for. -/
def supported : List Method := [get, post, put, delete, patch, options, head, trace]

/-- Reads a method as it is written in a file or on a command line: letters in either case, blanks
around it. -/
def ofWritten? (t : Text) : Option Method := ofText? (Text.upper (Text.trim t))

end Method

end HttpRouting
