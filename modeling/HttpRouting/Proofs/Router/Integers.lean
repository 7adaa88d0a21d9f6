import HttpRouting.Handler.Exchange
import HttpRouting.Proofs.Params
import HttpRouting.Proofs.Router.Captures
import HttpRouting.Proofs.Router.Matching
import Mathlib.Data.Nat.Digits.Defs

/-!
# Parameters that are numbers

One or more digits are read as the number that they write in the decimal system (`Text.decimal`),
however many they are, zeros in front included; a number that is out of range is refused and never
wrapped. Each parameter of a path comes from one token of the pattern, and its value is one that the
token stands for (`Route.capturedBy_of_capture?`). Where the last token of a name stands for an
integer, the value under the name is made of digits, which decoding leaves alone. A handler then
reads the number that they write, or is told that it is out of range (`Reachable.reads_integer`).
-/

namespace HttpRouting

/-! ## Digits -/

namespace Text

/-- The number that digits write in the decimal system. -/
def decimal (ds : Text) : Nat := Nat.ofDigits 10 (ds.reverse.map fun d => d.toNat - '0'.toNat)

theorem digitsValue_eq_decimal (ds : Text) : digitsValue ds = decimal ds := by
  rw [decimal, Nat.ofDigits_eq_foldr, List.foldr_map, List.foldr_reverse, digitsValue]
  congr 1
  funext n d
  exact Nat.add_comm ..

variable {ds : Text}

theorem digits?_digits (hne : ds ≠ []) (hdigits : ds.all Char.isDigit = true) :
    digits? ds = some (decimal ds) := by
  have hempty : ds.isEmpty = false := List.isEmpty_eq_false_iff.2 hne
  rw [digits?, hempty, hdigits, ← digitsValue_eq_decimal]
  rfl

/-- The first digit is no sign. -/
theorem uint64?_digits (hne : ds ≠ []) (hdigits : ds.all Char.isDigit = true) :
    uint64? ds = if decimal ds < 2 ^ 64 then some (decimal ds) else none := by
  have hread := digits?_digits hne hdigits
  unfold uint64?
  split
  · cases hdigits
  · rw [hread, Option.filter_some]
    simp

theorem int64?_digits (hne : ds ≠ []) (hdigits : ds.all Char.isDigit = true) :
    int64? ds = if decimal ds < 2 ^ 63 then some (decimal ds : Int) else none := by
  have hread := digits?_digits hne hdigits
  unfold int64?
  split
  · cases hdigits
  · cases hdigits
  · rw [hread, Option.filter_some, apply_ite (Option.map _)]
    simp

end Text

variable {n name value ds : Text} {tokens front back : List Token}

/-! ## Tokens and parameters -/

/-- The parameter has the name of the token, and a value that the token stands for. -/
def Param.CapturedBy (a : Param) (token : Token) : Prop :=
  token.name? = some a.name ∧ token.Spells a.value

/-- The tokens that capture, in order. -/
def Token.capturing (tokens : List Token) : List Token := tokens.filter (·.name?.isSome)

theorem Segment.capturedBy_of_decomposition {s : Segment} {t : Text} {values : List Text}
    (h : s.decomposition t values) :
    List.Forall₂ Param.CapturedBy (List.zipWith Param.mk (s.filterMap Token.name?) values)
      (Token.capturing s) := by
  induction s generalizing t values with
  | nil => exact .nil
  | cons token s ih =>
    obtain ⟨u, v, _, rest, -, ⟨hu, rfl⟩, hrest, rfl⟩ := h
    have hrest := ih hrest
    cases token with
    | literal text => exact hrest
    | param name type | catchAll name => exact .cons ⟨rfl, hu⟩ hrest

theorem Pattern.capturedBy_of_decomposition {p : Pattern} {t : Text} {values : List Text}
    (h : p.decomposition t values) :
    List.Forall₂ Param.CapturedBy (List.zipWith Param.mk p.names values)
      (Token.capturing p.segments.flatten) := by
  obtain ⟨segments⟩ := p
  induction segments generalizing t values with
  | nil => exact .nil
  | cons s segments ih =>
    obtain ⟨_, _, _, rest, -, ⟨_, _, _, first, -, ⟨-, rfl⟩, hfirst, rfl⟩, hrest, rfl⟩ := h
    have hlength := s.length_of_decomposition hfirst
    have hboth := List.rel_append (s.capturedBy_of_decomposition hfirst) (ih hrest)
    simp only [names, Token.capturing, List.flatten_cons, List.filterMap_append,
      List.filter_append]
    rw [List.zipWith_append hlength.symm]
    exact hboth

namespace Param.CapturedBy

theorem map_name {ps : Params} (h : List.Forall₂ CapturedBy ps (Token.capturing tokens)) :
    ps.map Param.name = tokens.filterMap Token.name? := by
  induction tokens generalizing ps with
  | nil =>
    cases h
    rfl
  | cons token tokens ih =>
    cases hname : token.name? with
    | none =>
      rw [List.filterMap_cons_none hname]
      refine ih ?_
      rwa [Token.capturing, List.filter_cons_of_neg (by simp [hname])] at h
    | some name =>
      rw [Token.capturing, List.filter_cons_of_pos (by simp [hname])] at h
      obtain ⟨a, ps, ha, hps, rfl⟩ := List.forall₂_cons_right_iff.1 h
      obtain rfl := Option.some.inj (hname.symm.trans ha.1)
      rw [List.filterMap_cons_some hname, List.map_cons, ih hps]

/-- The parameters before, of and behind one of the tokens. -/
theorem split {ps : Params} {token : Token} {name : Text} (hname : token.name? = some name)
    (h : List.Forall₂ CapturedBy ps (Token.capturing (front ++ token :: back))) :
    ∃ before a after, ps = before ++ a :: after ∧ a.CapturedBy token ∧
      List.Forall₂ CapturedBy before (Token.capturing front) ∧
      List.Forall₂ CapturedBy after (Token.capturing back) := by
  have hcapturing : Token.capturing (front ++ token :: back) =
      Token.capturing front ++ token :: Token.capturing back := by
    rw [Token.capturing, List.filter_append, List.filter_cons_of_pos (by simp [hname])]
    rfl
  rw [hcapturing] at h
  obtain ⟨a, after, ha, hafter, hdrop⟩ :=
    List.forall₂_cons_right_iff.1 (List.forall₂_drop_append ps _ _ h)
  refine ⟨ps.take (Token.capturing front).length, a, after, ?_, ha,
    List.forall₂_take_append ps _ _ h, hafter⟩
  rw [← hdrop, List.take_append_drop]

end Param.CapturedBy

namespace Route

variable {e : Route} {path : Text} {unescape : Bool} {params : Params}

theorem capturedBy_of_capture? (h : e.capture? path false = some params) :
    List.Forall₂ Param.CapturedBy params (Token.capturing e.pattern.segments.flatten) := by
  obtain ⟨hnames, hgreediest⟩ := capture?_raw_iff.1 h
  rw [← paramsOf_values hnames]
  exact Pattern.capturedBy_of_decomposition hgreediest.1

/-- Decoding changes each value by itself. -/
theorem exists_captured (h : e.capture? path unescape = some params) :
    ∃ captured, e.capture? path false = some captured ∧
      params = if unescape then captured.map Param.decode else captured := by
  cases unescape with
  | false => exact ⟨params, h, rfl⟩
  | true =>
    obtain ⟨captured, hcaptured, hdecoded⟩ := capture?_decoded_iff.1 h
    exact ⟨captured, hcaptured, (Params.forall₂_decoded_iff.1 hdecoded).symm⟩

/-- The last token of a name has the say on its value. -/
theorem get?_of_integer (htokens : e.pattern.segments.flatten = front ++ .param n .int :: back)
    (hlast : ∀ token ∈ back, token.name? ≠ some n)
    (h : e.capture? path unescape = some params) :
    ∃ before ds after, e.capture? path false = some (before ++ ⟨n, ds⟩ :: after) ∧
      before.map Param.name = front.filterMap Token.name? ∧
      ds ≠ [] ∧ ds.all Char.isDigit = true ∧ params.get? n = some ds := by
  obtain ⟨captured, hcaptured, hparams⟩ := exists_captured h
  have hcapturedBy := capturedBy_of_capture? hcaptured
  rw [htokens] at hcapturedBy
  obtain ⟨before, ⟨name, ds⟩, after, rfl, ⟨hname, haccepts⟩, hbefore, hafter⟩ :=
    Param.CapturedBy.split rfl hcapturedBy
  obtain rfl : n = name := Option.some.inj hname
  obtain ⟨hne, hdigits⟩ : ds ≠ [] ∧ ds.all Char.isDigit = true := by
    rw [Token.Spells, ParamType.accepts, Bool.and_eq_true, Bool.not_eq_true'] at haccepts
    exact ⟨List.isEmpty_eq_false_iff.1 haccepts.1, haccepts.2⟩
  refine ⟨before, ds, after, hcaptured, Param.CapturedBy.map_name hbefore, hne, hdigits, ?_⟩
  have hafter : ∀ a ∈ after, a.name ≠ n := by
    intro a ha hsame
    have hmem : a.name ∈ back.filterMap Token.name? := by
      rw [← Param.CapturedBy.map_name hafter]
      exact List.mem_map_of_mem ha
    obtain ⟨token, htoken, hname⟩ := List.mem_filterMap.1 hmem
    exact hlast token htoken (hname.trans (congrArg some hsame))
  rw [hparams]
  cases unescape with
  | false => exact Params.get?_of_last hafter
  | true =>
    have hword : ds.all Text.isWordChar = true := by
      rw [List.all_eq_true] at hdigits ⊢
      exact fun c hc => Text.isWordChar_of_isDigit (hdigits c hc)
    have hdecode : (Param.mk n ds).decode = ⟨n, ds⟩ := by
      rw [Param.decode, Text.percentDecode_of_word hword]
    rw [if_pos rfl, List.map_append, List.map_cons, hdecode]
    refine Params.get?_of_last ?_
    rw [List.forall_mem_map]
    exact hafter

end Route

namespace Exchange

variable {x : Exchange}

theorem uintParam_digits (hvalue : x.param n = ds) (hne : ds ≠ [])
    (hdigits : ds.all Char.isDigit = true) :
    x.uintParam n = if Text.decimal ds < 2 ^ 64 then .ok (Text.decimal ds)
      else .error (.notNumber n ds) := by
  rw [uintParam, hvalue, Text.uint64?_digits hne hdigits]
  by_cases h : Text.decimal ds < 2 ^ 64
  · rw [if_pos h, if_pos h]
  · rw [if_neg h, if_neg h]

theorem intParam_digits (hvalue : x.param n = ds) (hne : ds ≠ [])
    (hdigits : ds.all Char.isDigit = true) :
    x.intParam n = if Text.decimal ds < 2 ^ 63 then .ok (Text.decimal ds : Int)
      else .error (.notNumber n ds) := by
  rw [intParam, hvalue, Text.int64?_digits hne hdigits]
  by_cases h : Text.decimal ds < 2 ^ 63
  · rw [if_pos h, if_pos h]
  · rw [if_neg h, if_neg h]

end Exchange

/-! ## Matched requests -/

namespace Router

variable {r : Router} {m : Method} {path : Text} {unescape : Bool} {e : Route} {params : Params}

/-- Where the last token of a name stands for an integer, the digits that it captured are the value
under the name, decoded or not, whatever was captured under that name before. A handler reads the
number that they write exactly if it is in range, and is told the name and the digits otherwise. -/
theorem Reachable.reads_integer (hr : r.Reachable)
    (hfound : (r.resolve m path unescape).found? = some (e, params))
    (htokens : e.pattern.segments.flatten = front ++ .param n .int :: back)
    (hlast : ∀ token ∈ back, token.name? ≠ some n) (id : RequestId) :
    let x := Exchange.new id m path (some e.text) params
    ∃ before ds after,
      e.capture? (e.formOf path) false = some (before ++ ⟨n, ds⟩ :: after) ∧
      before.map Param.name = front.filterMap Token.name? ∧
      ds ≠ [] ∧ ds.all Char.isDigit = true ∧ x.param n = ds ∧
      x.uintParam n = (if Text.decimal ds < 2 ^ 64 then .ok (Text.decimal ds)
        else .error (.notNumber n ds)) ∧
      x.intParam n = if Text.decimal ds < 2 ^ 63 then .ok (Text.decimal ds : Int)
        else .error (.notNumber n ds) := by
  intro x
  obtain ⟨before, ds, after, hcaptured, hnames, hne, hdigits, hget⟩ :=
    Route.get?_of_integer htokens hlast (hr.valid.capture?_of_found? m path unescape hfound)
  have hvalue : x.param n = ds := by
    show (params.get? n).getD [] = ds
    rw [hget, Option.getD_some]
  exact ⟨before, ds, after, hcaptured, hnames, hne, hdigits, hvalue,
    Exchange.uintParam_digits hvalue hne hdigits, Exchange.intParam_digits hvalue hne hdigits⟩

/-- Under `/{n}/v{n:int}` the second value goes by the name. It is one too many for a signed
number. -/
theorem Reachable.reads_integer_limit : ∃ (r : Router) (path : Text) (x : Exchange),
    Reachable r ∧ (r.resolve .get path true).params = x.params ∧
    x.uintParam ['n'] = .ok (2 ^ 63) ∧
    x.intParam ['n'] = .error (.notNumber ['n'] (['0', '0'] ++ Nat.toDigits 10 (2 ^ 63))) := by
  obtain ⟨r, path, hr, hpattern, hparams⟩ : ∃ (r : Router) (path : Text), Reachable r ∧
      (r.resolve .get path true).route?.map Route.pattern =
        some ⟨[[.param ['n'] .word], [.literal ['v'], .param ['n'] .int]]⟩ ∧
      (r.resolve .get path true).params =
        [⟨['n'], ['7']⟩, ⟨['n'], ['0', '0'] ++ Nat.toDigits 10 (2 ^ 63)⟩] :=
    ⟨_, ['/', '7', '/', 'v', '0', '0'] ++ Nat.toDigits 10 (2 ^ 63),
      .register .empty .get ['/', '{', 'n', '}', '/', 'v', '{', 'n', ':', 'i', 'n', 't', '}'] [],
      by decide +kernel, by decide +kernel⟩
  rw [Resolution.route?, Option.map_map, Option.map_eq_some_iff] at hpattern
  obtain ⟨⟨e, params⟩, hfound, he⟩ := hpattern
  have hsame := hparams
  rw [Resolution.params, hfound] at hsame
  obtain rfl : params = _ := hsame
  have htokens : e.pattern.segments.flatten =
      [.param ['n'] .word, .literal ['v']] ++ .param ['n'] .int :: [] :=
    congrArg (·.segments.flatten) he
  obtain ⟨-, ds, -, -, -, -, -, hvalue, huint, hint⟩ :=
    hr.reads_integer hfound htokens (List.forall_mem_nil _) ⟨0⟩
  obtain rfl : ['0', '0'] ++ Nat.toDigits 10 (2 ^ 63) = ds := hvalue
  have hdecimal : Text.decimal (['0', '0'] ++ Nat.toDigits 10 (2 ^ 63)) = 2 ^ 63 := by
    rw [← Text.digitsValue_eq_decimal]
    decide +kernel
  rw [hdecimal, if_pos (by decide)] at huint
  rw [hdecimal, if_neg (by decide)] at hint
  exact ⟨r, path, _, hr, hparams, huint, hint⟩

end Router

end HttpRouting
