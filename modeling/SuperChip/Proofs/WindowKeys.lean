import SuperChip.Proofs.SpeedKeys
import SuperChip.Proofs.WellFormed
import SuperChip.Window.Inputs

/-!
# The keypad follows the last event of each key

A window tells its inputs of events in lists, one list with each poll.  All events of a list are
worked off, even after one that ends the program, unless a speed comes up that is too large for a
double.  Afterwards each key of the machine is as the last event for it says, whatever else the
events asked for.

What a list of events does is put together from what each of them does, so it does not matter how
they were spread over the polls.
-/

namespace SuperChip.Window

open Machine

variable {keymap : Keymap} {m m' m'' : Machine} {input : Input} {inputs rest : List Input}
  {code speed : Int}

/-- The next speed, if the speed is limited. -/
def limited (next : Int → Except Fault Int) (speed : Int) : Except Fault Int :=
  if speed ≤ 0 then .ok speed else next speed

namespace Input

/-- The speed that an input leads to. -/
def nextSpeed (speed : Int) : Input → Except Fault Int
  | .down code =>
    if code = resetKey then .ok defaultSpeed
    else if code ∈ fasterKeys then limited fasterSpeed speed
    else if code ∈ slowerKeys then limited slowerSpeed speed
    else .ok speed
  | .up _ | .close | .other => .ok speed

/-- What an input does to a key, if anything: it presses it or lets it go. -/
def move? (keymap : Keymap) (key : Key) : Input → Option Bool
  | .down code => if keymap.key? code = some key then some true else none
  | .up code => if keymap.key? code = some key then some false else none
  | .close | .other => none

/-- Whether an input ends the program. -/
def ends : Input → Bool
  | .up code => code = escape
  | .close => true
  | .down _ | .other => false

end Input

/-- The speed that inputs lead to, one after the other. -/
def speedAfter (speed : Int) (inputs : List Input) : Except Fault Int :=
  inputs.foldlM Input.nextSpeed speed

/-- What the last input that does anything to a key does to it. -/
def lastMove? (keymap : Keymap) (key : Key) (inputs : List Input) : Option Bool :=
  (inputs.filterMap (Input.move? keymap key)).getLast?

/-- Works off inputs in several polls, up to one that meets a fault.  The answers are those of the
polls. -/
def pollEach (keymap : Keymap) : List (List Input) → Machine → Machine × Except Fault (List Bool)
  | [], m => (m, .ok [])
  | inputs :: polls, m =>
    match poll keymap inputs false m with
    | (m, .ok quit) =>
      let (m, quits) := pollEach keymap polls m
      (m, quits.map (quit :: ·))
    | (m, .error f) => (m, .error f)

/-- `m'` is what `inputs` have made of `m`. -/
structure Follows (keymap : Keymap) (inputs : List Input) (m m' : Machine) : Prop where
  /-- Every input was worked off. -/
  processed : m' = inputs.foldl (fun m input ↦ (input.handle keymap m).1) m
  /-- Each key is as the last input for it says. -/
  keys : ∀ key, m'.keys.get key = (lastMove? keymap key inputs).getD (m.keys.get key)
  /-- The speed is the one that the inputs lead to. -/
  speed : speedAfter m.clockSpeed inputs = .ok m'.clockSpeed
  /-- A reset is asked for if it was before, or if one of the inputs does. -/
  resetRequested : m'.resetRequested ↔ m.resetRequested ∨ .down resetKey ∈ inputs

/-! ## One input -/

theorem changeSpeed_limited {next : Int → Except Fault Int}
    (hn : ∀ n, next m.clockSpeed = .ok n → ∃ interval, intervalOf n = .ok interval) :
    (∃ speed interval, limited next m.clockSpeed = .ok speed ∧
      m.changeSpeed next = ({ m with clockSpeed := speed, interval }, none)) ∨
    ∃ f, limited next m.clockSpeed = .error f ∧ m.changeSpeed next = (m, some f) := by
  rw [limited]
  rcases changeSpeed_cases hn with ⟨hs, hm⟩ | ⟨hs, f, hf, hm⟩ | ⟨hs, speed, interval, hspeed, -, hm⟩
  · exact .inl ⟨m.clockSpeed, m.interval, if_pos hs, hm⟩
  · exact .inr ⟨f, (if_neg (not_le_of_gt hs)).trans hf, hm⟩
  · exact .inl ⟨speed, interval, (if_neg (not_le_of_gt hs)).trans hspeed, hm⟩

/-- What a key asks of the host is another speed or a reset, or it fails and nothing changes. -/
theorem control_cases (m : Machine) (code : Int) :
    (∃ speed interval, (Input.down code).nextSpeed m.clockSpeed = .ok speed ∧
      control m code = ({ m with
        clockSpeed := speed
        interval
        resetRequested := m.resetRequested || decide (code = resetKey) }, none)) ∨
    ∃ f, (Input.down code).nextSpeed m.clockSpeed = .error f ∧ control m code = (m, some f) := by
  rw [control, Input.nextSpeed]
  by_cases hreset : code = resetKey
  · obtain ⟨interval, hi⟩ := exists_intervalOf_defaultSpeed
    rw [if_pos hreset, if_pos hreset, restoreSpeed, setClockSpeed_of_ok hi,
      decide_eq_true hreset, Bool.or_true]
    exact .inl ⟨defaultSpeed, interval, rfl, rfl⟩
  · rw [if_neg hreset, if_neg hreset, decide_eq_false hreset, Bool.or_false]
    by_cases hfaster : code ∈ fasterKeys
    · rw [if_pos hfaster, if_pos hfaster]
      exact changeSpeed_limited fun n hn ↦ exists_intervalOf_of_next (.inl hn)
    · rw [if_neg hfaster, if_neg hfaster]
      by_cases hslower : code ∈ slowerKeys
      · rw [if_pos hslower, if_pos hslower]
        exact changeSpeed_limited fun n hn ↦ exists_intervalOf_of_next (.inr hn)
      · rw [if_neg hslower, if_neg hslower]
        exact .inl ⟨m.clockSpeed, m.interval, rfl, rfl⟩

/-- Passing a key on changes this key only. -/
theorem exists_passOn_eq (keymap : Keymap) (m : Machine) (code : Int) (down : Bool) :
    ∃ keys, passOn keymap m code down = { m with keys } ∧
      ∀ key, keys.get key = if keymap.key? code = some key then down else m.keys.get key := by
  rw [passOn]
  cases keymap.key? code with
  | none => exact ⟨m.keys, rfl, fun key ↦ rfl⟩
  | some k =>
    refine ⟨m.keys.setIfInBounds k down, rfl, fun key ↦ ?_⟩
    rw [get_setIfInBounds]
    simp only [Option.some.injEq, eq_comm]

/-- A code without a key is not passed on. -/
theorem passOn_of_eq_none (h : keymap.key? code = none) (down : Bool) :
    passOn keymap m code down = m := by
  rw [passOn, h]

theorem lastMove?_singleton (key : Key) :
    lastMove? keymap key [input] = input.move? keymap key := by
  rw [lastMove?, List.filterMap_cons]
  cases input.move? keymap key <;> rfl

theorem speedAfter_singleton (speed : Int) : speedAfter speed [input] = input.nextSpeed speed :=
  bind_pure (input.nextSpeed speed)

/-- Letting go of a key follows the input, also if the key ends the program. -/
theorem handle_up (he : keymap.key? escape = none) (m : Machine) (code : Int) :
    (Input.up code).handle keymap m = (passOn keymap m code false, .ok (Input.up code).ends) := by
  rw [Input.handle, Input.ends]
  by_cases h : code = escape
  · rw [if_pos h, decide_eq_true h, passOn_of_eq_none (h ▸ he)]
  · rw [if_neg h, decide_eq_false h]

theorem follows_singleton {r : Except Fault Bool} (hh : input.handle keymap m = (m', r))
    (hkeys : ∀ key, m'.keys.get key = (input.move? keymap key).getD (m.keys.get key))
    (hspeed : input.nextSpeed m.clockSpeed = .ok m'.clockSpeed)
    (hreset : m'.resetRequested ↔ m.resetRequested ∨ input = .down resetKey) :
    Follows keymap [input] m m' where
  processed := (congrArg Prod.fst hh).symm
  keys key := by rw [hkeys, lastMove?_singleton]
  speed := by rw [speedAfter_singleton, hspeed]
  resetRequested := by rw [hreset, List.mem_singleton, eq_comm (a := input)]

/-- An input is worked off, or its speed is too large and nothing changes. -/
theorem handle_cases (he : keymap.key? escape = none) (input : Input) (m : Machine) :
    (∃ m', input.handle keymap m = (m', .ok input.ends) ∧ Follows keymap [input] m m') ∨
      ∃ f, input.nextSpeed m.clockSpeed = .error f ∧ input.handle keymap m = (m, .error f) := by
  cases input with
  | down code =>
    rcases control_cases m code with ⟨speed, interval, hs, hc⟩ | ⟨f, hs, hc⟩
    · obtain ⟨keys, hp, hkeys⟩ := exists_passOn_eq keymap (control m code).1 code true
      have hh : (Input.down code).handle keymap m =
          ({ (control m code).1 with keys }, .ok false) := by
        rw [Input.handle, ← hp, hc]
      rw [hc] at hh hkeys
      refine .inl ⟨_, hh, follows_singleton hh (fun key ↦ ?_) hs ?_⟩
      · rw [hkeys, Input.move?]
        split <;> rfl
      · rw [Bool.or_eq_true, decide_eq_true_iff, Input.down.injEq]
    · refine .inr ⟨f, hs, ?_⟩
      rw [Input.handle, hc]
  | up code =>
    obtain ⟨keys, hp, hkeys⟩ := exists_passOn_eq keymap m code false
    have hh := handle_up he m code
    rw [hp] at hh
    refine .inl ⟨_, hh, follows_singleton hh (fun key ↦ ?_) rfl ?_⟩
    · rw [hkeys, Input.move?]
      split <;> rfl
    · exact (or_iff_left Input.noConfusion).symm
  | close | other =>
    exact .inl ⟨m, rfl, follows_singleton rfl (fun key ↦ rfl) rfl
      (or_iff_left Input.noConfusion).symm⟩

/-! ## Many inputs -/

theorem Follows.nil (keymap : Keymap) (m : Machine) : Follows keymap [] m m :=
  ⟨rfl, fun _ ↦ rfl, rfl, (or_iff_left List.not_mem_nil).symm⟩

theorem speedAfter_append (speed : Int) (inputs rest : List Input) :
    speedAfter speed (inputs ++ rest) = speedAfter speed inputs >>= (speedAfter · rest) :=
  List.foldlM_append

/-- What some inputs and then others have made of a machine, all of them have made of it. -/
theorem Follows.append (h : Follows keymap inputs m m') (h' : Follows keymap rest m' m'') :
    Follows keymap (inputs ++ rest) m m'' where
  processed := by rw [List.foldl_append, ← h.processed, ← h'.processed]
  keys key := by
    rw [h'.keys, h.keys, lastMove?, lastMove?, lastMove?, List.filterMap_append,
      List.getLast?_append]
    cases (rest.filterMap (Input.move? keymap key)).getLast? <;> rfl
  speed := by
    rw [speedAfter_append, h.speed]
    exact h'.speed
  resetRequested := by rw [h'.resetRequested, h.resetRequested, List.mem_append, or_assoc]

/-- All inputs are worked off, or a speed comes up that is too large. -/
theorem poll_cases (he : keymap.key? escape = none) (inputs : List Input) (quit : Bool)
    (m : Machine) :
    (∃ m', poll keymap inputs quit m = (m', .ok (quit || inputs.any Input.ends)) ∧
      Follows keymap inputs m m') ∨
    ∃ f, speedAfter m.clockSpeed inputs = .error f ∧ (poll keymap inputs quit m).2 = .error f := by
  induction inputs generalizing quit m with
  | nil =>
    refine .inl ⟨m, ?_, .nil keymap m⟩
    rw [poll, List.any_nil, Bool.or_false]
  | cons input inputs ih =>
    have hsplit := speedAfter_append m.clockSpeed [input] inputs
    rcases handle_cases he input m with ⟨m₁, hh, hf⟩ | ⟨f, hs, hh⟩
    · rw [hf.speed] at hsplit
      have hp : poll keymap (input :: inputs) quit m =
          poll keymap inputs (quit || input.ends) m₁ := by
        rw [poll, hh]
      rw [hp, List.any_cons, ← Bool.or_assoc]
      rcases ih (quit || input.ends) m₁ with ⟨m', hrest, hf'⟩ | ⟨f, hs, hrest⟩
      · exact .inl ⟨m', hrest, hf.append hf'⟩
      · exact .inr ⟨f, hsplit.trans hs, hrest⟩
    · rw [speedAfter_singleton, hs] at hsplit
      refine .inr ⟨f, hsplit, ?_⟩
      rw [poll, hh]

/-! ## Many polls -/

theorem poll_append (keymap : Keymap) (inputs rest : List Input) (quit : Bool) (m : Machine) :
    poll keymap (inputs ++ rest) quit m =
      match poll keymap inputs quit m with
      | (m, .ok quit) => poll keymap rest quit m
      | (m, .error f) => (m, .error f) := by
  induction inputs generalizing quit m with
  | nil => rfl
  | cons input inputs ih =>
    rw [List.cons_append, poll, poll]
    rcases input.handle keymap m with ⟨m₁, f | ends⟩
    · rfl
    · exact ih (quit || ends) m₁

/-- An end that was found before only adds to the answer. -/
theorem poll_or (keymap : Keymap) (inputs : List Input) (before quit : Bool) (m : Machine) :
    poll keymap inputs (before || quit) m =
      (poll keymap inputs quit m).map id (Except.map (before || ·)) := by
  induction inputs generalizing quit m with
  | nil => rfl
  | cons input inputs ih =>
    rw [poll, poll]
    rcases input.handle keymap m with ⟨m₁, f | ends⟩
    · rfl
    · simp only [Bool.or_assoc]
      exact ih (quit || ends) m₁

/-- It does not matter how inputs are spread over polls. -/
theorem pollEach_eq (keymap : Keymap) (polls : List (List Input)) (m : Machine) :
    (pollEach keymap polls m).map id (Except.map (·.any id)) =
      poll keymap polls.flatten false m := by
  induction polls generalizing m with
  | nil => rfl
  | cons inputs polls ih =>
    rw [List.flatten_cons, poll_append, pollEach]
    rcases poll keymap inputs false m with ⟨m₁, f | quit⟩
    · rfl
    · have hrest := poll_or keymap polls.flatten quit false m₁
      rw [Bool.or_false, ← ih] at hrest
      simp only [hrest]
      rcases pollEach keymap polls m₁ with ⟨m₂, f | quits⟩ <;> rfl

/-! ## The keypad -/

theorem any_ends_iff : inputs.any Input.ends = true ↔ .close ∈ inputs ∨ .up escape ∈ inputs := by
  rw [List.any_eq_true]
  constructor
  · rintro ⟨input, hmem, h⟩
    cases input with
    | up code =>
      obtain rfl : code = escape := of_decide_eq_true h
      exact .inr hmem
    | close => exact .inl hmem
    | down code | other => cases h
  · rintro (h | h)
    · exact ⟨_, h, rfl⟩
    · exact ⟨_, h, rfl⟩

/-- If escape is no key of the machine and no speed comes up that is too large, a poll works off all
inputs, also those after one that ends the program.  Each key is then as the last input for it says,
the speed is the one that the inputs lead to and a reset is asked for if one of them asks.  The
answer is whether the window was closed or escape let go.  Several polls that are given the same
inputs one after the other leave the same machine, and one of them tells the end if the single poll
does. -/
theorem keypad_follows_inputs (he : keymap.key? escape = none)
    (hs : speedAfter m.clockSpeed inputs = .ok speed) :
    ∃ m' quit, poll keymap inputs false m = (m', .ok quit) ∧ Follows keymap inputs m m' ∧
      (quit = true ↔ .close ∈ inputs ∨ .up escape ∈ inputs) ∧
      ∀ polls : List (List Input), polls.flatten = inputs →
        ∃ quits, pollEach keymap polls m = (m', .ok quits) ∧ quits.any id = quit := by
  rcases poll_cases he inputs false m with ⟨m', hp, hf⟩ | ⟨f, hf, -⟩
  · rw [Bool.false_or] at hp
    refine ⟨m', inputs.any Input.ends, hp, hf, any_ends_iff, ?_⟩
    rintro polls rfl
    have heach := pollEach_eq keymap polls m
    rw [hp] at heach
    generalize pollEach keymap polls m = r at heach ⊢
    rcases r with ⟨m₁, f | quits⟩
    · cases heach
    · obtain ⟨rfl, hany⟩ := Prod.mk.inj heach
      exact ⟨quits, rfl, Except.ok.inj hany⟩
  · rw [hs] at hf
    cases hf

/-- A keymap in which plus and F5 press keys as well. -/
def overlapping : Keymap := ⟨[(43, 1), (resetKey, 2)]⟩

/-- Plus is pressed and let go, with an escape between, then F5 and minus are pressed. -/
def pressed : List Input := [.down 43, .up escape, .up 43, .down resetKey, .down 45]

/-- Split over three polls, the inputs leave the hurried machine with the key of F5 down and slower
than usual, and the first poll tells the end. -/
theorem keypad_follows_inputs_pressed : overlapping.key? escape = none ∧
    speedAfter hurried.clockSpeed pressed = .ok 909 ∧
    ∃ m', poll overlapping pressed false hurried = (m', .ok true) ∧
      m'.keys.get 1 = false ∧ m'.keys.get 2 = true ∧ m'.clockSpeed = 909 ∧ m'.resetRequested ∧
      ∃ quits, pollEach overlapping [[.down 43, .up escape], [], [.up 43, .down resetKey, .down 45]]
        hurried = (m', .ok quits) ∧ quits.any id = true := by
  have he : overlapping.key? escape = none := by decide
  have hs : speedAfter hurried.clockSpeed pressed = .ok 909 := by decide +kernel
  obtain ⟨m', quit, hp, hf, hquit, hpolls⟩ := keypad_follows_inputs he hs
  obtain rfl : quit = true := hquit.mpr (.inr (by decide))
  have hspeed := hf.speed.symm.trans hs
  refine ⟨he, hs, m', hp, ?_, ?_, Except.ok.inj hspeed, hf.resetRequested.mpr (.inr (by decide)),
    hpolls _ rfl⟩
  · rw [hf.keys]
    rfl
  · rw [hf.keys]
    rfl

end SuperChip.Window
