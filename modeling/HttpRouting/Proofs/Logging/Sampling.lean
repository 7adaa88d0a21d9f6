import HttpRouting.Logging.Sampler
import Mathlib.Data.List.Basic

/-!
# Which events are kept

A sampler counts the ordinary events that it samples and nothing else, whatever comes in between
(`count_after`), so that the number of such events before one tells whether it is kept
(`sampling_exact`). Its remainder is never one by zero (`offer?_eq`), and it makes no difference
that the places which signals come from are told only once what becomes of them (`passAll_eq`).
-/

namespace HttpRouting.Sampler

variable {s : Sampler}

/-- Events below a warning. -/
def Signal.isOrdinary : Signal → Bool
  | .event level => !level.isSerious
  | .span => false

/-! ## Remainders -/

/-- The remainder of a division; there is none by zero. -/
def remainder? (n d : UInt64) : Option UInt64 := if d = 0 then none else some (n % d)

/-- The decision on one event, with a remainder that may fail. -/
def offer? (s : Sampler) (level : Level) : Option (Bool × Sampler) :=
  match s.mode with
  | .all | .errorOnly => some (s.enables level, s)
  | .sampled =>
    if level.isSerious then some (true, s)
    else if s.rate ≤ 0 then some (false, s)
    else do
      let kept ← if 0 < s.interval then (remainder? s.count s.interval).map (· == 0) else some false
      return (kept, { s with count := s.count + 1 })

def accept? (s : Sampler) : Signal → Option (Bool × Sampler)
  | .event level => s.offer? level
  | .span => some (false, s)

def acceptAll? (s : Sampler) : List Signal → Option (List Bool)
  | [] => some []
  | signal :: rest => do
    let (kept, s) ← s.accept? signal
    return kept :: (← acceptAll? s rest)

theorem offer?_eq (s : Sampler) (level : Level) : s.offer? level = some (s.offer level) := by
  unfold offer? offer
  cases s.mode with
  | all | errorOnly => rfl
  | sampled =>
    simp only
    split
    · rfl
    split
    · rfl
    · split
      · next hpos =>
        have hne : s.interval ≠ 0 := fun h => by simp [h] at hpos
        rw [remainder?, if_neg hne]
        rfl
      · rfl

theorem accept?_eq (s : Sampler) (x : Signal) : s.accept? x = some (s.accept x) := by
  cases x with
  | event level => exact offer?_eq s level
  | span => rfl

theorem acceptAll?_eq (s : Sampler) (signals : List Signal) :
    s.acceptAll? signals = some (s.acceptAll signals) := by
  induction signals generalizing s with
  | nil => rfl
  | cons x signals ih =>
    rw [acceptAll?, accept?_eq, Option.bind_eq_bind, Option.bind_some]
    simp only [ih]
    rfl

/-! ## What is counted -/

/-- The sampler after some signals. -/
def after (s : Sampler) (signals : List Signal) : Sampler :=
  signals.foldl (fun s x => (s.accept x).2) s

/-- Only ordinary events that are sampled are counted. -/
theorem accept_snd (s : Sampler) (x : Signal) :
    (s.accept x).2 = if s.mode = .sampled ∧ ¬ s.rate ≤ 0 ∧ x.isOrdinary = true then
      { s with count := s.count + 1 } else s := by
  cases x with
  | span => simp [accept, Signal.isOrdinary]
  | event level =>
    unfold accept offer Signal.isOrdinary
    cases hmode : s.mode with
    | all | errorOnly => rfl
    | sampled =>
      by_cases hlevel : level.isSerious = true
      · simp [hlevel]
      · by_cases hrate : s.rate ≤ 0 <;> simp [hlevel, hrate]

theorem length_acceptAll (s : Sampler) (signals : List Signal) :
    (s.acceptAll signals).length = signals.length := by
  induction signals generalizing s with
  | nil => rfl
  | cons x signals ih => exact congrArg (· + 1) (ih (s.accept x).2)

/-- A signal is decided on by the sampler as those before have left it. -/
theorem getElem?_acceptAll {signals : List Signal} {n : Nat} {x : Signal}
    (h : signals[n]? = some x) :
    (s.acceptAll signals)[n]? = some ((s.after (signals.take n)).accept x).1 := by
  induction signals generalizing s n with
  | nil => cases h
  | cons y signals ih =>
    cases n with
    | zero =>
      cases h
      rfl
    | succ n => exact ih h

theorem mode_after (s : Sampler) (signals : List Signal) : (s.after signals).mode = s.mode := by
  induction signals generalizing s with
  | nil => rfl
  | cons x signals ih =>
    refine (ih (s.accept x).2).trans ?_
    rw [accept_snd]
    split <;> rfl

theorem rate_after (s : Sampler) (signals : List Signal) : (s.after signals).rate = s.rate := by
  induction signals generalizing s with
  | nil => rfl
  | cons x signals ih =>
    refine (ih (s.accept x).2).trans ?_
    rw [accept_snd]
    split <;> rfl

/-- The count goes up with every ordinary event that is sampled, and with nothing else. -/
theorem count_after (hmode : s.mode = .sampled) (hrate : ¬ s.rate ≤ 0) (signals : List Signal) :
    (s.after signals).count = s.count + .ofNat (signals.countP Signal.isOrdinary) := by
  induction signals generalizing s with
  | nil => exact (UInt64.add_zero _).symm
  | cons x signals ih =>
    show ((s.accept x).2.after signals).count = _
    rw [accept_snd]
    by_cases hx : x.isOrdinary = true
    · have hrest := ih (s := { s with count := s.count + 1 }) hmode hrate
      rw [if_pos ⟨hmode, hrate, hx⟩, hrest, List.countP_cons_of_pos hx, UInt64.ofNat_add,
        UInt64.add_assoc, UInt64.add_comm 1]
      rfl
    · rw [if_neg fun h => hx h.2.2, ih hmode hrate, List.countP_cons_of_neg hx]

/-! ## Places that are told once -/

/-- The decision on a signal from a place that was told what becomes of its signals. -/
def pass (s : Sampler) (told : Interest) (x : Signal) : Bool × Sampler :=
  match told with
  | .never => (false, s)
  | .sometimes => if s.records x then s.accept x else (false, s)
  | .always => s.accept x

/-- Decides on the signals that come from numbered places one after another. A place is told what
becomes of its signals when the first one comes, and never again. -/
def passAll (origin : Nat → Signal) (s : Sampler) (told : Nat → Option Interest) :
    List Nat → List Bool
  | [] => []
  | place :: rest =>
    let interest := (told place).getD (s.interest (origin place))
    let (kept, s) := s.pass interest (origin place)
    kept :: passAll origin s (fun p => if p = place then some interest else told p) rest

theorem pass_interest (s : Sampler) (x : Signal) : s.pass (s.interest x) x = s.accept x := by
  cases x with
  | span => rfl
  | event level =>
    unfold pass interest
    cases hmode : s.mode <;> cases hlevel : level.isSerious <;>
      simp [enables, records, accept, offer, hmode, hlevel]

theorem interest_accept (s : Sampler) (x y : Signal) :
    (s.accept x).2.interest y = s.interest y := by
  rw [accept_snd]
  split <;> rfl

/-- What a place was told at first is what it would be told later. -/
theorem passAll_eq {origin : Nat → Signal} {told : Nat → Option Interest}
    (htold : ∀ p interest, told p = some interest → interest = s.interest (origin p))
    (places : List Nat) : s.passAll origin told places = s.acceptAll (places.map origin) := by
  induction places generalizing s told with
  | nil => rfl
  | cons place places ih =>
    have hinterest : (told place).getD (s.interest (origin place)) = s.interest (origin place) := by
      cases h : told place with
      | none => rfl
      | some interest => exact htold place interest h
    simp only [passAll, hinterest, pass_interest]
    refine congrArg _ (ih fun p interest h => ?_)
    rw [interest_accept]
    split at h
    · next hp =>
      cases h
      rw [hp]
    · exact htold p interest h

/-! ## The events that are kept -/

theorem offer_of_isSerious {level : Level} (h : level.isSerious = true) :
    (s.offer level).1 = true := by
  unfold offer enables
  cases s.mode <;> simp [h]

/-- Of an ordinary event that is sampled, the number of those before it decides. -/
theorem offer_sampled {level : Level} (hmode : s.mode = .sampled) (hrate : ¬ s.rate ≤ 0)
    (hlevel : level.isSerious = false) {i : Nat} (hcount : s.count = .ofNat i)
    (hi : i < UInt64.size) :
    (s.offer level).1 = true ↔ 0 < s.interval.toNat ∧ s.interval.toNat ∣ i := by
  have hremainder : s.count % s.interval = 0 ↔ s.interval.toNat ∣ i := by
    rw [← UInt64.toNat_inj, UInt64.toNat_mod, hcount, UInt64.toNat_ofNat_of_lt' hi,
      Nat.dvd_iff_mod_eq_zero]
    rfl
  have hpos : 0 < s.interval ↔ 0 < s.interval.toNat := UInt64.lt_iff_toNat_lt
  unfold offer
  simp only [hmode, hlevel, Bool.false_eq_true, if_false, if_neg hrate]
  rw [← hremainder, ← hpos]
  split
  · next h => simp [h]
  · next h => simp [h]

/-- In every sequence of events and spans, warnings and errors are kept; of the ordinary events all
are kept, none, or those whose number, counted from zero, is a multiple of the interval, as the mode
and the rate tell. No remainder is taken by zero. It makes no difference that places are told only
once what becomes of their signals. -/
theorem sampling_exact (mode : Mode) (rate : Float) (signals : List Signal) :
    let s := new mode rate
    let kept := s.acceptAll signals
    let k := s.interval.toNat
    kept.length = signals.length ∧
    (∀ n level, signals[n]? = some (.event level) →
      (level.isSerious = true → kept[n]? = some true) ∧
      (mode = .all → kept[n]? = some true) ∧
      (level.isSerious = false →
        (mode = .errorOnly → kept[n]? = some false) ∧
        (mode = .sampled → s.rate ≤ 0 → kept[n]? = some false) ∧
        (mode = .sampled → ¬ s.rate ≤ 0 →
          let i := (signals.take n).countP Signal.isOrdinary
          i < UInt64.size → (kept[n]? = some true ↔ 0 < k ∧ k ∣ i)))) ∧
    s.acceptAll? signals = some kept ∧
    ∀ (origin : Nat → Signal) (places : List Nat), places.map origin = signals →
      s.passAll origin (fun _ => none) places = kept := by
  intro s kept k
  refine ⟨length_acceptAll s signals, fun n level hn => ?_, acceptAll?_eq s signals,
    fun origin places hplaces => ?_⟩
  · have hkept : kept[n]? = some ((s.after (signals.take n)).offer level).1 := getElem?_acceptAll hn
    have hmode : (s.after (signals.take n)).mode = mode := mode_after s _
    have hrate := rate_after s (signals.take n)
    rw [hkept]
    refine ⟨fun hserious => congrArg some (offer_of_isSerious hserious), ?_,
      fun hlevel => ⟨?_, ?_, ?_⟩⟩
    · rintro rfl
      simp only [offer, hmode, enables]
    · rintro rfl
      simp only [offer, hmode, enables, hlevel]
    · rintro rfl hzero
      simp only [offer, hmode, hlevel, hrate, if_pos hzero, Bool.false_eq_true, if_false]
    · rintro rfl hpos i hi
      have hcount : (s.after (signals.take n)).count = .ofNat i :=
        (count_after (s := s) rfl hpos _).trans (UInt64.zero_add _)
      have hinterval : (s.after (signals.take n)).interval = s.interval := by
        rw [interval, hrate, interval]
      rw [Option.some.injEq, offer_sampled hmode (hrate ▸ hpos) hlevel hcount hi, hinterval]
  · have hnone : ∀ p interest, (fun _ : Nat => (none : Option Interest)) p = some interest →
        interest = s.interest (origin p) := nofun
    rw [passAll_eq hnone, hplaces]

end HttpRouting.Sampler
