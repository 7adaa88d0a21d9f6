import HttpRouting.Proofs.Pattern.Parsing
import HttpRouting.Proofs.Pattern.Walkable

/-!
# Keys as matchers

A key takes a path from left to right without a choice: `Key.capture?`. For a walkable pattern this
is what its expression captures (`Pattern.capture?_regex`); the key of any other pattern takes no
path at all (`Pattern.capture?_key_of_not_walkable`). Written in lower case, a segment tells how a
walk treats it (`Shape.ofWritten_segment`), so that keys of patterns differ as their texts do
(`Key.text`).
-/

namespace HttpRouting

/-! ## Shapes -/

/-- How a walk treats a wildcard of the given text. -/
def Shape.ofWritten (written : Text) : Shape :=
  match Segment.parse written with
  | .ok s => s.shape
  | .error _ => .mixed

theorem Segment.shape_lower (s : Segment) : shape (lower s) = shape s := by
  match s with
  | [] => rfl
  | [.literal _] | [.param _ _] | [.catchAll _] => rfl
  | t :: t' :: s => cases t <;> rfl

/-- Letter case does not matter to the shape of a segment. -/
theorem Shape.ofWritten_segment {s : Segment} (h : Segment.parse (Segment.text s) = .ok s) :
    Shape.ofWritten (Text.lower (Segment.text s)) = s.shape := by
  rw [ofWritten, Segment.parse_lower h]
  exact Segment.shape_lower s

theorem Shape.isParam_of_accepts {shape : Shape} {t : Text} (h : shape.accepts t = true) :
    ∃ type, shape = .param type := by
  cases shape with
  | param type => exact ⟨type, rfl⟩
  | catchAll | mixed => cases h

theorem Shape.all_word_of_accepts {shape : Shape} {t : Text} (h : shape.accepts t = true) :
    t.all Text.isWordChar = true := by
  obtain ⟨type, rfl⟩ := isParam_of_accepts h
  have hall : t.all type.admits = true := by
    simp only [accepts, ParamType.accepts, Bool.and_eq_true] at h
    exact h.2
  cases type with
  | word => exact hall
  | int =>
    rw [List.all_eq_true] at hall ⊢
    exact fun c hc => Text.isWordChar_of_isDigit (hall c hc)

theorem Shape.accepts_nil (shape : Shape) : shape.accepts [] = false := by
  cases shape <;> rfl

theorem Shape.accepts_lower (shape : Shape) (t : Text) :
    shape.accepts (Text.lower t) = shape.accepts t := by
  cases shape with
  | param type =>
    have hall : (Text.lower t).all type.admits = t.all type.admits := by
      cases type with
      | word => exact Text.all_lower Text.isWordChar_toLower t
      | int => exact Text.all_lower Text.isDigit_toLower t
    rw [accepts, ParamType.accepts, ParamType.accepts, hall]
    cases t <;> rfl
  | catchAll | mixed => rfl

/-! ## What a key captures -/

namespace Key

/-- The values of the wildcards if a path, letter case aside, can be followed along the key. -/
def capture? : Key → Text → Option (List Text)
  | [], t => if t = [] then some [] else none
  | .char _ :: _, [] => none
  | .char c :: key, d :: t => if c = d.toLower then capture? key t else none
  | .wild _ shape :: key, t =>
    if shape.accepts (Path.cutSegment t).1 then
      (capture? key (Path.cutSegment t).2).map ((Path.cutSegment t).1 :: ·)
    else none

/-- The characters of a text. -/
def ofText (t : Text) : Key := t.map .char

/-- The text of a key, its wildcards as they are written. -/
def text (key : Key) : Text :=
  key.flatMap fun
    | .char c => [c]
    | .wild written _ => written

/-- Each wildcard is treated as its text tells. -/
def Regular (key : Key) : Prop :=
  ∀ written shape, .wild written shape ∈ key → shape = Shape.ofWritten written

@[simp] theorem ofText_nil : ofText [] = [] := rfl

@[simp] theorem ofText_cons (c : Char) (t : Text) : ofText (c :: t) = .char c :: ofText t := rfl

@[simp] theorem text_append (key key' : Key) : text (key ++ key') = text key ++ text key' :=
  List.flatMap_append

theorem ofText_append (s t : Text) : ofText (s ++ t) = ofText s ++ ofText t := List.map_append

theorem text_ofText (t : Text) : text (ofText t) = t := by
  induction t with
  | nil => rfl
  | cons c t ih => exact congrArg (c :: ·) ih

theorem Regular.cons {symbol : Symbol} {key : Key} (h : Regular (symbol :: key)) : Regular key :=
  fun written shape hm => h written shape (List.mem_cons_of_mem _ hm)

theorem Regular.append_right {key key' : Key} (h : Regular (key ++ key')) : Regular key' :=
  fun written shape hm => h written shape (List.mem_append_right _ hm)

theorem capture?_ofText (s : Text) (key : Key) (t : Text) :
    capture? (ofText s ++ key) t =
      (Text.dropStart? (· == ·) s (Text.lower t)).bind fun _ => capture? key (t.drop s.length) := by
  induction s generalizing t with
  | nil => rfl
  | cons c s ih =>
    cases t with
    | nil => rfl
    | cons d t =>
      by_cases h : c = d.toLower
      · simp [capture?, Text.dropStart?, h, ih]
      · simp [capture?, Text.dropStart?, h]

theorem capture?_ofText_lower (s : Text) (key : Key) (t : Text) :
    capture? (ofText (Text.lower s) ++ key) t =
      (Text.dropStart? Text.sameFolded s t).bind (capture? key) := by
  rw [capture?_ofText, Text.dropStart?_lower]
  cases h : Text.dropStart? Text.sameFolded s t with
  | none => rfl
  | some u =>
    rw [Text.length_lower, Text.drop_of_dropStart? h]
    rfl

/-- A wildcard that no walk takes stops every path. -/
theorem capture?_eq_none {key : Key} {written : Text} {shape : Shape}
    (hm : .wild written shape ∈ key) (hs : ∀ t, shape.accepts t = false) (t : Text) :
    capture? key t = none := by
  induction key generalizing t with
  | nil => cases hm
  | cons symbol key ih =>
    cases hm with
    | head => simp [capture?, hs]
    | tail _ hm =>
      cases symbol with
      | char c =>
        cases t with
        | nil => rfl
        | cons d t =>
          simp only [capture?]
          split
          · exact ih hm t
          · rfl
      | wild w s =>
        simp only [capture?, ih hm, Option.map_none]
        split <;> rfl

/-- A captured value is a non-empty word: it has no sign that decoding would change. -/
theorem all_word_of_capture? {key : Key} {t : Text} {values : List Text}
    (h : capture? key t = some values) : ∀ v ∈ values, v.all Text.isWordChar = true := by
  induction key generalizing t values with
  | nil =>
    simp only [capture?] at h
    split at h
    · cases h; exact nofun
    · cases h
  | cons symbol key ih =>
    cases symbol with
    | char c =>
      cases t with
      | nil => cases h
      | cons d t =>
        simp only [capture?] at h
        split at h
        · exact ih h
        · cases h
    | wild written shape =>
      simp only [capture?] at h
      split at h
      · next haccepts =>
        obtain ⟨rest, hrest, rfl⟩ := Option.map_eq_some_iff.1 h
        rintro v (_ | ⟨_, hv⟩)
        · exact Shape.all_word_of_accepts haccepts
        · exact ih hrest v hv
      · cases h

/-- The number of wildcards. -/
def arity (key : Key) : Nat :=
  key.countP fun
    | .char _ => false
    | .wild .. => true

theorem length_of_capture? {key : Key} {t : Text} {values : List Text}
    (h : capture? key t = some values) : values.length = arity key := by
  induction key generalizing t values with
  | nil =>
    simp only [capture?] at h
    split at h
    · cases h; rfl
    · cases h
  | cons symbol key ih =>
    cases symbol with
    | char c =>
      cases t with
      | nil => cases h
      | cons d t =>
        simp only [capture?] at h
        split at h
        · simpa [arity] using ih h
        · cases h
    | wild written shape =>
      simp only [capture?] at h
      split at h
      · obtain ⟨rest, hrest, rfl⟩ := Option.map_eq_some_iff.1 h
        simpa [arity] using ih hrest
      · cases h

end Key

/-! ## Keys of patterns -/

namespace Segment

theorem key_of_isLiteral {s : Segment} (h : isLiteral s = true) :
    key s = Key.ofText (Text.lower (text s)) := by
  rw [key, if_pos h]
  rfl

theorem key_of_not_isLiteral {s : Segment} (h : ¬ isLiteral s = true) :
    key s = [.wild (Text.lower (text s)) (shape s)] := by
  rw [key, if_neg h]

theorem isParam_cases {s : Segment} (h : isParam s = true) :
    ∃ name type, s = [.param name type] := by
  match s, h with
  | [.param name type], _ => exact ⟨name, type, rfl⟩

theorem text_key (s : Segment) : Key.text (key s) = Text.lower (text s) := by
  by_cases h : isLiteral s = true
  · rw [key_of_isLiteral h, Key.text_ofText]
  · rw [key_of_not_isLiteral h]
    exact List.append_nil _

theorem isParam_of_shape {s : Segment} {type : ParamType} (h : shape s = .param type) :
    isParam s = true := by
  unfold shape at h
  split at h
  · rfl
  · cases h
  · cases h

end Segment

namespace Pattern

theorem text_key (p : Pattern) : Key.text p.key = Text.lower p.text := by
  unfold key text
  induction p.segments with
  | nil => rfl
  | cons s ss ih =>
    rw [List.flatMap_cons, List.flatMap_cons, Key.text_append, Text.lower_append, ih]
    exact congrArg (· ++ _) (congrArg ('/' :: ·) (Segment.text_key s))

theorem regular_key {t : Text} {p : Pattern} (h : parse t = .ok p) : p.key.Regular := by
  intro written shape hm
  obtain ⟨s, hs, hm⟩ := List.mem_flatMap.1 hm
  rcases List.mem_cons.1 hm with hm | hm
  · cases hm
  by_cases hlit : Segment.isLiteral s = true
  · rw [Segment.key_of_isLiteral hlit] at hm
    obtain ⟨c, _, hc⟩ := List.mem_map.1 hm
    cases hc
  · rw [Segment.key_of_not_isLiteral hlit] at hm
    cases List.mem_singleton.1 hm
    exact (Shape.ofWritten_segment (parse_segment h hs)).symm

theorem stops_segments (ss : List Segment) : Regex.Stops (ss.flatMap Regex.ofSegment) := by
  cases ss with
  | nil => exact Regex.stops_nil
  | cons s ss => exact Regex.stops_slash _

theorem capture?_segments {ss : List Segment}
    (hs : ss.all (fun s => Segment.isLiteral s || Segment.isParam s) = true) (t : Text) :
    Regex.capture? (ss.flatMap Regex.ofSegment) t =
      Key.capture? (ss.flatMap fun s => .char '/' :: Segment.key s) t := by
  induction ss generalizing t with
  | nil => exact Regex.capture?_nil t
  | cons s ss ih =>
    obtain ⟨hseg, hs⟩ := Bool.and_eq_true_iff.1 (List.all_cons.symm.trans hs)
    rw [List.flatMap_cons, List.flatMap_cons, Regex.ofSegment]
    cases t with
    | nil => rfl
    | cons c t =>
      have hslash : Char.toLower c = '/' ↔ c = '/' := Text.toLower_eq_iff (by decide) c
      by_cases hc : c = '/'
      · have hleft : Regex.capture? (.slash :: s.flatMap Regex.ofToken ++
            ss.flatMap Regex.ofSegment) (c :: t) =
              Regex.capture? (s.flatMap Regex.ofToken ++ ss.flatMap Regex.ofSegment) t := by
          simp [Regex.capture?, Text.dropStart?, hc]
        have hright : Key.capture? (.char '/' :: Segment.key s ++
            ss.flatMap fun s => .char '/' :: Segment.key s) (c :: t) =
              Key.capture? (Segment.key s ++
                ss.flatMap fun s => .char '/' :: Segment.key s) t := by
          simp [Key.capture?, hslash.2 hc]
        rw [hleft, hright]
        by_cases hlit : Segment.isLiteral s = true
        · rw [Regex.capture?_isLiteral hlit, Segment.key_of_isLiteral hlit,
            Key.capture?_ofText_lower]
          exact congrArg _ (funext (ih hs))
        · rw [Segment.key_of_not_isLiteral hlit]
          rw [Bool.or_eq_true, or_iff_right hlit] at hseg
          obtain ⟨name, type, rfl⟩ := Segment.isParam_cases hseg
          exact (Regex.capture?_run (stops_segments ss) type t).trans (by rw [ih hs]; rfl)
      · have hright : ¬ '/' = Char.toLower c := fun h => hc (hslash.1 h.symm)
        simp [Regex.capture?, Key.capture?, Text.dropStart?, Ne.symm hc, hright]

/-- A path is followed along the key of a walkable pattern exactly as its expression matches it. -/
theorem capture?_regex {p : Pattern} (hp : p.isWalkable = true) (t : Text) :
    p.regex.capture? t = p.key.capture? t :=
  capture?_segments hp t

theorem capture?_key_of_not_walkable {p : Pattern} (hp : p.isWalkable = false) (t : Text) :
    p.key.capture? t = none := by
  obtain ⟨s, hs, hseg⟩ := List.all_eq_false.1 hp
  simp only [Bool.or_eq_true, not_or] at hseg
  have hm : Symbol.wild (Text.lower (Segment.text s)) (Segment.shape s) ∈ p.key :=
    List.mem_flatMap.2 ⟨s, hs, List.mem_cons_of_mem _
      (by rw [Segment.key_of_not_isLiteral hseg.1]; exact List.mem_singleton_self _)⟩
  refine Key.capture?_eq_none hm (fun t => ?_) t
  cases hshape : Segment.shape s with
  | param type => exact absurd (Segment.isParam_of_shape hshape) hseg.2
  | catchAll | mixed => rfl

theorem isWalkable_of_capture? {p : Pattern} {t : Text} {values : List Text}
    (h : p.key.capture? t = some values) : p.isWalkable = true := by
  cases hp : p.isWalkable with
  | true => rfl
  | false => rw [capture?_key_of_not_walkable hp] at h; cases h

/-- A key takes the paths that the expression matches if the pattern is walkable, and none
otherwise. -/
theorem isSome_capture?_key (p : Pattern) (t : Text) :
    (p.key.capture? t).isSome = (p.isWalkable && p.regex.isMatch t) := by
  cases hp : p.isWalkable with
  | true => rw [Regex.isMatch, capture?_regex hp, Bool.true_and]
  | false => rw [capture?_key_of_not_walkable hp, Bool.false_and, Option.isSome_none]

/-- A walkable pattern has one wildcard for each of its names. -/
theorem arity_key {p : Pattern} (hp : p.isWalkable = true) : p.key.arity = p.names.length := by
  obtain ⟨ss⟩ := p
  unfold isWalkable at hp
  unfold key names
  induction ss with
  | nil => rfl
  | cons s ss ih =>
    obtain ⟨hseg, hs⟩ := Bool.and_eq_true_iff.1 (List.all_cons.symm.trans hp)
    have ih := ih hs
    rw [List.flatMap_cons, List.flatten_cons, List.filterMap_append, List.length_append, ← ih]
    unfold Key.arity
    rw [List.countP_append, List.countP_cons_of_neg (by simp)]
    congr 1
    by_cases hlit : Segment.isLiteral s = true
    · rw [Segment.key_of_isLiteral hlit]
      have hnames : s.filterMap Token.name? = [] := by
        refine List.filterMap_eq_nil_iff.2 fun token ht => ?_
        have := List.all_eq_true.1 hlit token ht
        cases token with
        | literal t => rfl
        | param name type => cases this
        | catchAll name => cases this
      rw [hnames, List.length_nil, List.countP_eq_zero]
      intro symbol hm
      obtain ⟨c, _, rfl⟩ := List.mem_map.1 hm
      exact Bool.false_ne_true
    · rw [Segment.key_of_not_isLiteral hlit]
      rw [Bool.or_eq_true, or_iff_right hlit] at hseg
      obtain ⟨name, type, rfl⟩ := Segment.isParam_cases hseg
      rfl

end Pattern

/-! ## Routes -/

namespace Route

/-- With a value for each name no value is dropped. -/
theorem values_paramsOf {r : Route} {values : List Text} (h : values.length = r.names.length) :
    (r.paramsOf values).map Param.value = values := by
  unfold paramsOf
  generalize r.names = names at h ⊢
  induction values generalizing names with
  | nil => cases names <;> rfl
  | cons v values ih =>
    cases names with
    | nil => cases h
    | cons name names => exact congrArg (v :: ·) (ih names (Nat.succ.inj h))

/-- What the walk captures for a route is what its expression captures, decoded or not. -/
theorem capture?_of_key {r : Route} {path : Text} {values : List Text}
    (h : r.pattern.key.capture? path = some values) (unescape : Bool) :
    r.capture? path unescape = some (r.paramsOf values) := by
  have hp := Pattern.isWalkable_of_capture? h
  have hdecode : values.map Text.percentDecode = values := by
    rw [List.map_congr_left fun v hv =>
      Text.percentDecode_of_word (Key.all_word_of_capture? h v hv)]
    exact List.map_id values
  rw [capture?, Pattern.capture?_regex hp, h, Option.map_some, hdecode, ite_self]

end Route

end HttpRouting
