import HttpRouting.Path
import Mathlib.Data.List.Forall2

/-!
# Normal forms of paths

A path is squeezed if it is not empty and has no two slashes in a row. `Path.squeeze` leads there
and then does nothing more, and `Path.flipSlash` stays there and leads back. Trimming a slash does
nothing or flips, and is done once (`Path.Squeezed.trimSlash_trimSlash`). All of this together is
`Path.normal_forms`. A path given by its parts loses an empty last part, unless the part before has
a dot (`Path.trimSlash_ofParts_nil`).
-/

namespace HttpRouting.Path

variable {path front u : Text}

/-! ## Squeezed paths -/

/-- The path is not empty and has no two slashes in a row. -/
def Squeezed (path : Text) : Prop := path ≠ [] ∧ ¬ ['/', '/'] <:+: path

theorem pair_infix_cons {c : Char} {t : Text} :
    ['/', '/'] <:+: c :: t ↔ (c = '/' ∧ t.head? = some '/') ∨ ['/', '/'] <:+: t := by
  rw [List.infix_cons_iff, List.cons_prefix_cons]
  refine or_congr_left (and_congr eq_comm ?_)
  cases t with
  | nil => simp
  | cons d t => simp [eq_comm]

theorem head?_squeezeRuns (t : Text) : (squeezeRuns t).head? = t.head? := by
  induction t with
  | nil => rfl
  | cons c t ih =>
    unfold squeezeRuns
    split
    · next h => rw [ih, h.2, h.1]; rfl
    · rfl

theorem not_infix_squeezeRuns (t : Text) : ¬ ['/', '/'] <:+: squeezeRuns t := by
  induction t with
  | nil => simp [squeezeRuns]
  | cons c t ih =>
    unfold squeezeRuns
    split
    · exact ih
    · next h =>
      rw [pair_infix_cons, head?_squeezeRuns]
      exact not_or.2 ⟨h, ih⟩

theorem squeezeRuns_of_not_infix {t : Text} (h : ¬ ['/', '/'] <:+: t) : squeezeRuns t = t := by
  induction t with
  | nil => rfl
  | cons c t ih =>
    rw [pair_infix_cons] at h
    obtain ⟨hhead, ht⟩ := not_or.1 h
    rw [squeezeRuns, if_neg hhead, ih ht]

theorem squeezed_squeeze (path : Text) : Squeezed (squeeze path) := by
  unfold squeeze
  split
  · exact ⟨nofun, by decide⟩
  · next hne =>
    refine ⟨fun hnil => hne ?_, not_infix_squeezeRuns path⟩
    rw [← List.head?_eq_none_iff, ← head?_squeezeRuns, hnil]
    rfl

theorem Squeezed.squeeze_eq (h : Squeezed path) : squeeze path = path := by
  rw [squeeze, if_neg h.1, squeezeRuns_of_not_infix h.2]

/-! ## Ends and parts -/

theorem squeeze_of_ne_nil (hne : path ≠ []) : squeeze path = squeezeRuns path := if_neg hne

theorem head?_squeeze (hne : path ≠ []) : (squeeze path).head? = path.head? := by
  rw [squeeze_of_ne_nil hne, head?_squeezeRuns]

theorem getLast?_squeezeRuns (t : Text) : (squeezeRuns t).getLast? = t.getLast? := by
  induction t with
  | nil => rfl
  | cons c t ih =>
    unfold squeezeRuns
    split
    · next h =>
      obtain ⟨t, rfl⟩ := List.head?_eq_some_iff.1 h.2
      rw [ih, List.getLast?_cons_cons]
    · rw [List.getLast?_cons, List.getLast?_cons, ih]

theorem getLast?_squeeze (hne : path ≠ []) : (squeeze path).getLast? = path.getLast? := by
  rw [squeeze_of_ne_nil hne, getLast?_squeezeRuns]

/-- The parts between slashes, without the empty ones. -/
def parts (path : Text) : List Text := (List.splitOn '/' path).filter (· ≠ [])

/-- The first part stays, and those behind it lose only empty ones. -/
theorem exists_split_squeezeRuns (t : Text) : ∃ first rest rest',
    List.splitOn '/' t = first :: rest ∧ List.splitOn '/' (squeezeRuns t) = first :: rest' ∧
      rest'.filter (· ≠ []) = rest.filter (· ≠ []) := by
  induction t with
  | nil => exact ⟨[], [], [], rfl, rfl, rfl⟩
  | cons c t ih =>
    obtain ⟨first, rest, rest', hsplit, hsqueezed, hfilter⟩ := ih
    unfold squeezeRuns
    split
    · next h =>
      -- The text behind the slash that is left out starts with one, so its first part is empty.
      obtain ⟨rfl, hhead⟩ := h
      obtain ⟨t, rfl⟩ := List.head?_eq_some_iff.1 hhead
      rw [List.splitOn_cons_eq_if_modifyHead, if_pos BEq.rfl] at hsplit
      obtain ⟨rfl, rfl⟩ := List.cons.inj hsplit
      refine ⟨[], [] :: List.splitOn '/' t, rest', ?_, hsqueezed, hfilter⟩
      rw [List.splitOn_cons_eq_if_modifyHead, if_pos BEq.rfl,
        List.splitOn_cons_eq_if_modifyHead, if_pos BEq.rfl]
    · rw [List.splitOn_cons_eq_if_modifyHead, List.splitOn_cons_eq_if_modifyHead, hsplit,
        hsqueezed, List.modifyHead_cons, List.modifyHead_cons]
      by_cases hc : c = '/'
      · rw [if_pos (beq_iff_eq.2 hc), if_pos (beq_iff_eq.2 hc)]
        refine ⟨[], first :: rest, first :: rest', rfl, rfl, ?_⟩
        rw [List.filter_cons, List.filter_cons, hfilter]
      · rw [if_neg (mt beq_iff_eq.1 hc), if_neg (mt beq_iff_eq.1 hc)]
        exact ⟨c :: first, rest, rest', rfl, rfl, hfilter⟩

theorem parts_squeeze (path : Text) : parts (squeeze path) = parts path := by
  by_cases hne : path = []
  · rw [hne]
    rfl
  · obtain ⟨first, rest, rest', hsplit, hsqueezed, hfilter⟩ := exists_split_squeezeRuns path
    rw [squeeze_of_ne_nil hne, parts, parts, hsplit, hsqueezed, List.filter_cons,
      List.filter_cons, hfilter]

/-! ## Character by character -/

/-- The path with one more character. A slash behind a slash is left out. -/
def pushSqueezed (out : Text) (c : Char) : Text :=
  if c = '/' ∧ out.getLast? = some '/' then out else out ++ [c]

theorem squeezeRuns_concat (t : Text) (c : Char) :
    squeezeRuns (t ++ [c]) = pushSqueezed (squeezeRuns t) c := by
  unfold pushSqueezed
  rw [getLast?_squeezeRuns]
  induction t with
  | nil =>
    rw [if_neg (fun h => nomatch h.2)]
    simp [squeezeRuns]
  | cons d t ih =>
    -- Whether the first character stays hangs on the second, which is the new one only if there
    -- is no other.
    cases t with
    | nil => by_cases hd : d = '/' <;> by_cases hc : c = '/' <;> simp [squeezeRuns, hd, hc]
    | cons e t =>
      rw [List.getLast?_cons_cons]
      by_cases hd : d = '/' ∧ (e :: t).head? = some '/'
      · have hskip : ∀ rest, squeezeRuns (d :: e :: rest) = squeezeRuns (e :: rest) :=
          fun _ => if_pos hd
        rw [List.cons_append, List.cons_append, hskip, hskip, ← List.cons_append, ih]
      · have hkeep : ∀ rest, squeezeRuns (d :: e :: rest) = d :: squeezeRuns (e :: rest) :=
          fun _ => if_neg hd
        rw [List.cons_append, List.cons_append, hkeep, hkeep, ← List.cons_append, ih]
        split <;> rfl

/-- Going through the characters squeezes as well: what is kept so far is what was passed so far,
squeezed. -/
theorem foldl_pushSqueezed (passed t : Text) :
    t.foldl pushSqueezed (squeezeRuns passed) = squeezeRuns (passed ++ t) := by
  induction t generalizing passed with
  | nil => rw [List.foldl_nil, List.append_nil]
  | cons c t ih =>
    rw [List.foldl_cons, ← squeezeRuns_concat, ih, List.append_assoc, List.singleton_append]

theorem squeeze_eq_foldl (hne : path ≠ []) : squeeze path = path.foldl pushSqueezed [] := by
  rw [squeeze_of_ne_nil hne]
  exact (foldl_pushSqueezed [] path).symm

/-! ## Trailing slashes -/

theorem eq_of_beforeSlash? (h : beforeSlash? path = some front) : path = front ++ ['/'] := by
  unfold beforeSlash? at h
  split at h
  · next hlast =>
    cases h
    obtain ⟨hne, hlast⟩ := List.getLast?_eq_some_iff.1 hlast
    rw [hlast, List.dropLast_concat]
  · cases h

theorem getLast?_of_beforeSlash? (h : beforeSlash? path = none) : path.getLast? ≠ some '/' := by
  unfold beforeSlash? at h
  split at h
  · cases h
  · assumption

/-- A path is flipped by taking its trailing slash off or by adding one, the root apart. -/
theorem flipSlash_cases (path : Text) :
    path = ['/'] ∧ flipSlash path = path ∨
    (∃ c front, path = c :: front ++ ['/'] ∧ flipSlash path = c :: front) ∨
    path.getLast? ≠ some '/' ∧ flipSlash path = path ++ ['/'] := by
  unfold flipSlash
  cases h : beforeSlash? path with
  | none => exact .inr (.inr ⟨getLast?_of_beforeSlash? h, rfl⟩)
  | some front =>
    cases front with
    | nil => exact .inl ⟨eq_of_beforeSlash? h, rfl⟩
    | cons c front => exact .inr (.inl ⟨c, front, eq_of_beforeSlash? h, rfl⟩)

theorem Squeezed.flipSlash (h : Squeezed path) : Squeezed (flipSlash path) := by
  rcases flipSlash_cases path with ⟨-, hflip⟩ | ⟨c, front, hpath, hflip⟩ | ⟨hlast, hflip⟩
  · rw [hflip]
    exact h
  · rw [hflip]
    refine ⟨nofun, fun hinfix => h.2 ?_⟩
    rw [hpath]
    exact hinfix.trans (List.prefix_append _ _).isInfix
  · rw [hflip]
    refine ⟨by simp, fun hinfix => ?_⟩
    rcases List.infix_concat_iff.1 hinfix with hsuffix | hinfix
    · rcases List.suffix_concat_iff.1 hsuffix with hnil | ⟨t, ht, front, hfront⟩
      · cases hnil
      · have hslash : ['/'] ++ ['/'] = t ++ ['/'] := ht
        obtain rfl := List.append_cancel_right hslash
        rw [← hfront, List.getLast?_concat] at hlast
        exact hlast rfl
    · exact h.2 hinfix

/-- A path from which a slash is trimmed is flipped by that. -/
theorem trimSlash_cases (path : Text) :
    trimSlash path = path ∨ trimSlash path = flipSlash path := by
  by_cases hroot : path = ['/']
  · exact .inl (if_pos hroot)
  unfold trimSlash Path.flipSlash
  rw [if_neg hroot]
  cases h : beforeSlash? path with
  | none => exact .inl rfl
  | some front =>
    simp only
    split
    · exact .inl rfl
    · refine .inr ?_
      cases front with
      | nil => exact absurd (eq_of_beforeSlash? h) hroot
      | cons c front => rfl

theorem trimSlash_of_getLast? (h : path.getLast? ≠ some '/') : trimSlash path = path := by
  have hbefore : beforeSlash? path = none := if_neg h
  simp only [trimSlash, hbefore, ite_self]

theorem trimSlash_concat (hne : front ≠ []) :
    trimSlash (front ++ ['/']) =
      if (lastSegment front).contains '.' then front ++ ['/'] else front := by
  have hbefore : beforeSlash? (front ++ ['/']) = some front := by
    rw [beforeSlash?, List.getLast?_concat, if_pos rfl, List.dropLast_concat]
  have hroot : front ++ ['/'] ≠ ['/'] := by simpa using hne
  rw [trimSlash, if_neg hroot, hbefore]

theorem Squeezed.trimSlash (h : Squeezed path) : Squeezed (trimSlash path) := by
  rcases trimSlash_cases path with htrim | htrim
  · rw [htrim]
    exact h
  · rw [htrim]
    exact h.flipSlash

/-- There is one slash at the end at most. -/
theorem Squeezed.getLast?_ne (h : Squeezed (front ++ ['/'])) : front.getLast? ≠ some '/' := by
  intro hlast
  obtain ⟨before, hbefore⟩ := List.getLast?_eq_some_iff.1 hlast
  refine h.2 ?_
  rw [hbefore, List.append_assoc]
  exact (List.suffix_append before ['/', '/']).isInfix

/-- A slash that is trimmed leaves no slash behind. -/
theorem Squeezed.trimSlash_trimSlash (h : Squeezed path) :
    Path.trimSlash (Path.trimSlash path) = Path.trimSlash path := by
  rcases trimSlash_cases path with htrim | htrim
  · rw [htrim, htrim]
  rcases flipSlash_cases path with ⟨-, hflip⟩ | ⟨c, front, hpath, hflip⟩ | ⟨hlast, -⟩
  · rw [htrim, hflip]
    exact htrim.trans hflip
  · rw [hpath] at h
    rw [htrim, hflip, trimSlash_of_getLast? h.getLast?_ne]
  · rw [trimSlash_of_getLast? hlast, trimSlash_of_getLast? hlast]

theorem flipSlash_of_getLast? (h : path.getLast? ≠ some '/') : flipSlash path = path ++ ['/'] := by
  rcases flipSlash_cases path with ⟨hroot, -⟩ | ⟨c, front, hpath, -⟩ | ⟨-, hflip⟩
  · exact absurd (congrArg List.getLast? hroot) h
  · rw [hpath, List.getLast?_concat] at h
    exact absurd rfl h
  · exact hflip

theorem flipSlash_concat (hne : front ≠ []) : flipSlash (front ++ ['/']) = front := by
  obtain ⟨c, front, rfl⟩ := List.exists_cons_of_ne_nil hne
  rw [flipSlash, beforeSlash?, List.getLast?_concat, if_pos rfl, List.dropLast_concat]

theorem Squeezed.flipSlash_flipSlash (h : Squeezed path) :
    Path.flipSlash (Path.flipSlash path) = path := by
  rcases flipSlash_cases path with ⟨-, hflip⟩ | ⟨c, front, hpath, hflip⟩ | ⟨-, hflip⟩
  · rw [hflip, hflip]
  · rw [hpath] at h
    rw [hflip, flipSlash_of_getLast? h.getLast?_ne, hpath]
  · rw [hflip, flipSlash_concat h.1]

theorem flipSlash_ne (hroot : path ≠ ['/']) : flipSlash path ≠ path := by
  rcases flipSlash_cases path with ⟨h, -⟩ | ⟨c, front, hpath, hflip⟩ | ⟨-, hflip⟩
  · exact absurd h hroot
  · rw [hflip, hpath]
    simp
  · rw [hflip]
    simp

/-! ## Last segments -/

theorem lastSegment_append (front : Text) (hu : '/' ∉ u) :
    lastSegment (front ++ u) = lastSegment front ++ u := by
  have hall : ∀ c ∈ u.reverse, decide (c ≠ '/') = true := by
    intro c hc
    refine decide_eq_true fun h => hu ?_
    exact h ▸ List.mem_reverse.1 hc
  rw [lastSegment, List.reverse_append, List.takeWhile_append_of_pos hall, List.reverse_append,
    List.reverse_reverse, lastSegment]

theorem lastSegment_concat (front : Text) : lastSegment (front ++ ['/']) = [] := by
  rw [lastSegment, List.reverse_concat, List.takeWhile_cons_of_neg (by simp), List.reverse_nil]

theorem exists_lastSegment (path : Text) :
    ∃ front, path = front ++ lastSegment path ∧ '/' ∉ lastSegment path := by
  refine ⟨(path.reverse.dropWhile (· ≠ '/')).reverse, ?_, fun h => ?_⟩
  · rw [lastSegment, ← List.reverse_append, List.takeWhile_append_dropWhile, List.reverse_reverse]
  · have hall := List.all_eq_true.1 List.all_takeWhile '/' (List.mem_reverse.1 h)
    exact absurd rfl (of_decide_eq_true hall)

/-- The last segment has the characters that no slash follows. -/
theorem mem_lastSegment_iff {c : Char} (hc : c ≠ '/') :
    c ∈ lastSegment path ↔ ∃ u v, path = u ++ c :: v ∧ '/' ∉ v := by
  constructor
  · intro h
    obtain ⟨front, hpath, hslash⟩ := exists_lastSegment path
    obtain ⟨u, v, hsegment⟩ := List.append_of_mem h
    refine ⟨front ++ u, v, ?_, fun hv => hslash ?_⟩
    · rw [List.append_assoc, ← hsegment, ← hpath]
    · rw [hsegment]
      exact List.mem_append_right u (List.mem_cons_of_mem c hv)
  · rintro ⟨u, v, rfl, hv⟩
    have hslash : '/' ∉ c :: v := by
      rw [List.mem_cons, not_or]
      exact ⟨hc.symm, hv⟩
    rw [lastSegment_append u hslash]
    exact List.mem_append_right _ List.mem_cons_self

/-- The slash at the end stays exactly if a dot stands before it, with no slash between. -/
theorem Squeezed.getLast?_trimSlash_iff (h : Squeezed path) (hroot : path ≠ ['/']) :
    (Path.trimSlash path).getLast? = some '/' ↔
      ∃ u v, path = u ++ '.' :: v ++ ['/'] ∧ '/' ∉ v := by
  by_cases hlast : path.getLast? = some '/'
  · obtain ⟨front, rfl⟩ := List.getLast?_eq_some_iff.1 hlast
    have hne : front ≠ [] := by
      rintro rfl
      exact hroot rfl
    have hdot : '.' ∈ lastSegment front ↔ ∃ u v, front = u ++ '.' :: v ∧ '/' ∉ v :=
      mem_lastSegment_iff (by decide)
    simp only [trimSlash_concat hne, List.contains_iff_mem, List.append_left_inj, ← hdot]
    split
    · next hmem => exact iff_of_true hlast hmem
    · next hmem => exact iff_of_false h.getLast?_ne hmem
  · rw [trimSlash_of_getLast? hlast]
    refine iff_of_false hlast ?_
    rintro ⟨u, v, rfl, -⟩
    exact hlast List.getLast?_concat

/-! ## Normal forms -/

/-- Squeezing leads to a squeezed path once and for all, character by character, and changes neither
the ends of a path nor what stands between its slashes. Among the squeezed paths other than the
root, flipping the trailing slash leads to another one and back, and trimming it does nothing or
flips, once, and leaves the slash of what looks like a file name. -/
theorem normal_forms :
    (∀ path, Squeezed (squeeze path) ∧ (Squeezed path → squeeze path = path) ∧
      squeeze (squeeze path) = squeeze path ∧ parts (squeeze path) = parts path ∧
      (path ≠ [] → (squeeze path).head? = path.head? ∧ (squeeze path).getLast? = path.getLast? ∧
        squeeze path = path.foldl pushSqueezed [])) ∧
    ∀ path, Squeezed path → path ≠ ['/'] →
      Squeezed (flipSlash path) ∧ flipSlash path ≠ path ∧ flipSlash (flipSlash path) = path ∧
      (trimSlash path = path ∨ trimSlash path = flipSlash path) ∧
      Squeezed (trimSlash path) ∧ trimSlash (trimSlash path) = trimSlash path ∧
      ((trimSlash path).getLast? = some '/' ↔
        ∃ u v, path = u ++ '.' :: v ++ ['/'] ∧ '/' ∉ v) := by
  constructor
  · intro path
    have hsqueezed := squeezed_squeeze path
    exact ⟨hsqueezed, Squeezed.squeeze_eq, hsqueezed.squeeze_eq, parts_squeeze path,
      fun hne => ⟨head?_squeeze hne, getLast?_squeeze hne, squeeze_eq_foldl hne⟩⟩
  · intro path h hroot
    exact ⟨h.flipSlash, flipSlash_ne hroot, h.flipSlash_flipSlash, trimSlash_cases path,
      h.trimSlash, h.trimSlash_trimSlash, h.getLast?_trimSlash_iff hroot⟩

/-- What looks like a file name keeps its slash. -/
theorem normal_forms_fileName : Squeezed ['/', 'a', '.', 'b', '/'] ∧
    (trimSlash ['/', 'a', '.', 'b', '/']).getLast? = some '/' := by
  have h : Squeezed ['/', 'a', '.', 'b', '/'] := ⟨nofun, by decide⟩
  obtain ⟨-, -, -, -, -, -, hkept⟩ := normal_forms.2 _ h (by decide)
  exact ⟨h, hkept.2 ⟨['/', 'a'], ['b'], rfl, by decide⟩⟩

/-! ## Paths of parts -/

/-- The path of the given parts, each after a slash. -/
def ofParts (parts : List Text) : Text := parts.flatMap ('/' :: ·)

@[simp] theorem ofParts_nil : ofParts [] = [] := rfl

@[simp] theorem ofParts_cons (u : Text) (parts : List Text) :
    ofParts (u :: parts) = '/' :: (u ++ ofParts parts) := rfl

@[simp] theorem ofParts_append (parts parts' : List Text) :
    ofParts (parts ++ parts') = ofParts parts ++ ofParts parts' :=
  List.flatMap_append

theorem ofParts_concat (front : List Text) (u : Text) :
    ofParts (front ++ [u]) = ofParts front ++ '/' :: u := by
  simp

theorem lastSegment_ofParts (front : List Text) {u : Text} (hu : '/' ∉ u) :
    lastSegment (ofParts (front ++ [u])) = u := by
  rw [ofParts_concat, List.append_cons, lastSegment_append _ hu, lastSegment_concat,
    List.nil_append]

theorem trimSlash_ofParts (front : List Text) {u : Text} (hne : u ≠ []) (hu : '/' ∉ u) :
    trimSlash (ofParts (front ++ [u])) = ofParts (front ++ [u]) := by
  obtain ⟨u, c, rfl⟩ := (List.eq_nil_or_concat u).resolve_left hne
  refine trimSlash_of_getLast? fun hlast => hu ?_
  rw [ofParts_concat, List.concat_eq_append, ← List.cons_append, ← List.append_assoc,
    List.getLast?_concat] at hlast
  cases hlast
  simp

/-- An empty last part is trimmed, unless the part before has a dot. -/
theorem trimSlash_ofParts_nil (front : List Text) {u : Text} (hu : '/' ∉ u) :
    trimSlash (ofParts (front ++ [u, []])) =
      if '.' ∈ u then ofParts (front ++ [u, []]) else ofParts (front ++ [u]) := by
  have hsplit : ofParts (front ++ [u, []]) = ofParts (front ++ [u]) ++ ['/'] := by simp
  rw [hsplit, trimSlash_concat (by simp), lastSegment_ofParts front hu]
  simp only [List.contains_iff_mem]

/-- Parts that make no difference to a trailing slash. -/
structure SimilarPart (u v : Text) : Prop where
  noSlash : '/' ∉ u ∧ '/' ∉ v
  empty : u = [] ↔ v = []
  dot : '.' ∈ u ↔ '.' ∈ v

/-- Whether a path keeps its trailing slash depends on its last two parts, and on little of them. -/
theorem trimSlash_ofParts_congr {us vs : List Text} (h : List.Forall₂ SimilarPart us vs) :
    trimSlash (ofParts us) = ofParts us ↔ trimSlash (ofParts vs) = ofParts vs := by
  rw [← List.forall₂_reverse_iff] at h
  obtain ⟨us, rfl⟩ : ∃ us', us = us'.reverse := ⟨us.reverse, us.reverse_reverse.symm⟩
  obtain ⟨vs, rfl⟩ : ∃ vs', vs = vs'.reverse := ⟨vs.reverse, vs.reverse_reverse.symm⟩
  rw [List.reverse_reverse, List.reverse_reverse] at h
  cases h with
  | nil => exact .rfl
  | @cons u v us vs hlast h =>
    rw [List.reverse_cons, List.reverse_cons]
    by_cases hu : u = []
    · obtain rfl := hu
      obtain rfl := hlast.empty.1 rfl
      cases h with
      | nil => exact .rfl
      | @cons u v us vs hbefore h =>
        simp only [List.reverse_cons, List.append_assoc, List.cons_append, List.nil_append,
          trimSlash_ofParts_nil _ hbefore.noSlash.1, trimSlash_ofParts_nil _ hbefore.noSlash.2]
        have hshorter : ∀ (front : List Text) (w : Text),
            ofParts (front ++ [w]) ≠ ofParts (front ++ [w, []]) := by simp
        by_cases hdot : '.' ∈ u
        · rw [if_pos hdot, if_pos (hbefore.dot.1 hdot)]
          exact iff_of_true rfl rfl
        · rw [if_neg hdot, if_neg (mt hbefore.dot.2 hdot)]
          exact iff_of_false (hshorter _ _) (hshorter _ _)
    · exact iff_of_true (trimSlash_ofParts _ hu hlast.noSlash.1)
        (trimSlash_ofParts _ (mt hlast.empty.2 hu) hlast.noSlash.2)

theorem pair_infix_append {u : Text} (hu : '/' ∉ u) (t : Text) :
    ['/', '/'] <:+: u ++ t ↔ ['/', '/'] <:+: t := by
  induction u with
  | nil => exact .rfl
  | cons c u ih =>
    rw [List.mem_cons, not_or] at hu
    rw [List.cons_append, pair_infix_cons, ih hu.2, or_iff_right fun h => hu.1 h.1.symm]

theorem not_infix_ofParts {parts : List Text} (hslash : ∀ u ∈ parts, '/' ∉ u)
    (hfront : ∀ u ∈ parts.dropLast, u ≠ []) : ¬ ['/', '/'] <:+: ofParts parts := by
  induction parts with
  | nil => simp
  | cons u parts ih =>
    obtain ⟨hu, hrest⟩ := List.forall_mem_cons.1 hslash
    rw [ofParts_cons, pair_infix_cons, pair_infix_append hu, not_or]
    cases parts with
    | nil =>
      refine ⟨fun h => hu ?_, by simp⟩
      rw [ofParts_nil, List.append_nil] at h
      exact List.mem_of_mem_head? h.2
    | cons v parts =>
      rw [List.dropLast_cons_cons] at hfront
      obtain ⟨hne, hfront⟩ := List.forall_mem_cons.1 hfront
      refine ⟨fun h => hu ?_, ih hrest hfront⟩
      obtain ⟨c, u, rfl⟩ := List.exists_cons_of_ne_nil hne
      obtain rfl : c = '/' := Option.some.inj h.2
      exact List.mem_cons_self

theorem squeezed_ofParts {parts : List Text} (hne : parts ≠ []) (hslash : ∀ u ∈ parts, '/' ∉ u)
    (hfront : ∀ u ∈ parts.dropLast, u ≠ []) : Squeezed (ofParts parts) := by
  refine ⟨?_, not_infix_ofParts hslash hfront⟩
  obtain ⟨u, parts, rfl⟩ := List.exists_cons_of_ne_nil hne
  exact List.cons_ne_nil _ _

end HttpRouting.Path
