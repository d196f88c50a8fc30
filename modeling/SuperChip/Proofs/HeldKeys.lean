import SuperChip.Proofs.Reachable
import SuperChip.Terminal.Console

/-!
# Which of the held keys a machine knows of

The inputs from a terminal tell their machine of changed keys only, so they have to know what the
machine knows.  When they ask for a reset, which takes all keys from the machine, they forget what
they have told.  They count on the reset to be made before the next poll.

If the machine comes to its reset later, a poll may have told it of the held keys again by then.
The reset takes these keys from the machine, and the inputs take them to be told.  Such a key is
lost until a poll finds that it is not held any more.  Apart from lost keys, the machine knows of
exactly the keys that are held, after each poll that leaves no reset to be made.
-/

namespace SuperChip

namespace Machine

variable {m m' m'' : Machine}

/-- `m'` has the same keys down as `m`, and is asked for a reset if and only if `m` is. -/
structure KeysKept (m m' : Machine) : Prop where
  /-- The same keys are down. -/
  keys : m'.keys = m.keys
  /-- A reset is asked for, or not, as before. -/
  resetRequested : m'.resetRequested = m.resetRequested

theorem keysKept_of_setClockSpeed {speed : Int} {f : Option Fault}
    (h : m.setClockSpeed speed = (m', f)) : m.KeysKept m' := by
  obtain ⟨interval, hm⟩ := m.exists_setClockSpeed_eq speed
  rw [h] at hm
  cases hm
  exact ⟨rfl, rfl⟩

theorem keysKept_of_changeSpeed {next : Int → Except Fault Int} {f : Option Fault}
    (h : m.changeSpeed next = (m', f)) : m.KeysKept m' := by
  rw [changeSpeed] at h
  split at h
  · cases h
    exact ⟨rfl, rfl⟩
  · split at h
    · exact keysKept_of_setClockSpeed h
    · cases h
      exact ⟨rfl, rfl⟩

end Machine

namespace Terminal

variable {inputs inputs' : Inputs} {m m' : Machine} {now : Float} {history : List Happening}
  {k : Key}

namespace Inputs

/-! ## The queue -/

/-- What working off a queue means for the keys. -/
structure Drains (reset : Bool) (inputs : Inputs) (m : Machine)
    (r : Inputs × Machine × Drained) : Prop where
  /-- The inputs take the same keys to be told. -/
  reported : r.1.reported = inputs.reported
  /-- The machine has the same keys down. -/
  keys : r.2.1.keys = m.keys
  /-- If a reset was asked for, it still is. -/
  kept : m.resetRequested = true → r.2.1.resetRequested = true
  /-- If a request for a reset is found, a reset is asked for. -/
  asked : r.2.2 = .all true → reset = true ∨ r.2.1.resetRequested = true

/-- A queue that is not worked off to its end. -/
theorem drains_early {reset : Bool} {d : Drained} (hd : d ≠ .all true)
    (hi : inputs'.reported = inputs.reported) (hm : m.KeysKept m') :
    Drains reset inputs m (inputs', m', d) where
  reported := hi
  keys := hm.keys
  kept := hm.resetRequested.trans
  asked h := absurd h hd

/-- A queue of which something has been worked off already. -/
theorem Drains.later {reset : Bool} {r : Inputs × Machine × Drained} (h : Drains reset inputs' m' r)
    (hi : inputs'.reported = inputs.reported) (hm : m.KeysKept m') : Drains reset inputs m r where
  reported := h.reported.trans hi
  keys := h.keys.trans hm.keys
  kept hreset := h.kept (hm.resetRequested.trans hreset)
  asked := h.asked

/-- A queue at whose head a reset is asked for. -/
theorem Drains.request {reset : Bool} {r : Inputs × Machine × Drained}
    (h : Drains true inputs m.requestReset r) : Drains reset inputs m r where
  reported := h.reported
  keys := h.keys
  kept _ := h.kept rfl
  asked _ := .inr (h.kept rfl)

/-- Working off a queue leaves the keys alone, and asks for a reset if it says so. -/
theorem drains_drain (now : Float) (reset : Bool) (queue : List Int) (inputs : Inputs)
    (m : Machine) : Drains reset inputs m (drain now reset queue inputs m) := by
  fun_induction drain now reset queue inputs m with
  | case1 reset inputs m => exact ⟨rfl, rfl, id, fun h ↦ .inl (Drained.all.inj h)⟩
  | case2 reset code rest inputs m => exact drains_early Drained.noConfusion rfl ⟨rfl, rfl⟩
  | case3 reset code rest inputs m _ _ m' hm ih =>
    exact ih.request.later rfl (Machine.keysKept_of_setClockSpeed hm)
  | case4 reset code rest inputs m _ _ m' f hm =>
    exact drains_early Drained.noConfusion rfl (Machine.keysKept_of_setClockSpeed hm)
  | case5 reset code rest inputs m _ _ m' hm ih | case7 reset code rest inputs m _ _ m' hm ih =>
    exact ih.later rfl (Machine.keysKept_of_changeSpeed hm)
  | case6 reset code rest inputs m _ _ m' f hm | case8 reset code rest inputs m _ _ m' f hm =>
    exact drains_early Drained.noConfusion rfl (Machine.keysKept_of_changeSpeed hm)
  | case9 reset code rest inputs m inputs' hcode held hheld ih =>
    refine ih.later ?_ ⟨rfl, rfl⟩
    rw [hold] at hheld
    split at hheld
    · cases hheld
    · cases hheld
      rfl
  | case10 reset code rest inputs m => exact drains_early Drained.noConfusion rfl ⟨rfl, rfl⟩

/-! ## Telling the machine -/

/-- The machine is told of a key, if it has changed. -/
structure TellsOf (now : Float) (inputs : Inputs) (m : Machine) (r : Inputs × Machine)
    (k : Key) : Prop where
  /-- The inputs take the key to be told as it is held. -/
  reported : r.1.reported.get k = inputs.isHeld now k
  /-- The machine is told of it if it has changed. -/
  keys : r.2.keys.get k =
    if inputs.isHeld now k = inputs.reported.get k then m.keys.get k else inputs.isHeld now k

/-- The machine is not told of a key. -/
structure Spares (inputs : Inputs) (m : Machine) (r : Inputs × Machine) (k : Key) : Prop where
  /-- The inputs take the key to be told as before. -/
  reported : r.1.reported.get k = inputs.reported.get k
  /-- The machine knows of it as before. -/
  keys : r.2.keys.get k = m.keys.get k

/-- The machine is told of some keys. -/
structure Tells (now : Float) (keys : List Key) (inputs : Inputs) (m : Machine)
    (r : Inputs × Machine) : Prop where
  /-- The same keys are held. -/
  timers : r.1.timers = inputs.timers
  /-- A reset is asked for, or not, as before. -/
  resetRequested : r.2.resetRequested = m.resetRequested
  /-- The machine is told of these keys. -/
  told : ∀ k ∈ keys, TellsOf now inputs m r k
  /-- The machine is not told of others. -/
  spared : ∀ k, k ∉ keys → Spares inputs m r k

theorem tells_report (now : Float) (inputs : Inputs) (m : Machine) (key : Key) :
    Tells now [key] inputs m (inputs.report m now key) := by
  rw [report]
  split
  next h =>
    refine ⟨rfl, rfl, ?_, fun _ _ ↦ ⟨rfl, rfl⟩⟩
    rintro k hk
    cases List.mem_singleton.mp hk
    exact ⟨h.symm, (if_pos h).symm⟩
  next h =>
    refine ⟨rfl, rfl, ?_, ?_⟩
    · rintro k hk
      cases List.mem_singleton.mp hk
      constructor
      · rw [get_setIfInBounds, if_pos rfl]
      · rw [get_setIfInBounds, if_pos rfl, if_neg h]
    · intro k hk
      have hne : k ≠ key := fun heq ↦ hk (List.mem_singleton.mpr heq)
      constructor
      · rw [get_setIfInBounds, if_neg hne]
      · rw [get_setIfInBounds, if_neg hne]

theorem Tells.append {keys keys' : List Key} {r : Inputs × Machine}
    (h : Tells now keys inputs m (inputs', m')) (h' : Tells now keys' inputs' m' r) :
    Tells now (keys ++ keys') inputs m r := by
  have hheld (k : Key) : inputs'.isHeld now k = inputs.isHeld now k := by
    rw [isHeld, isHeld, h.timers]
  refine ⟨h'.timers.trans h.timers, h'.resetRequested.trans h.resetRequested, ?_, ?_⟩
  · intro k hk
    by_cases hkeys : k ∈ keys
    · have htold := h.told k hkeys
      by_cases hkeys' : k ∈ keys'
      · -- The second telling finds the key told already.
        have hagain := h'.told k hkeys'
        refine ⟨hagain.reported.trans (hheld k), ?_⟩
        rw [hagain.keys, if_pos ((hheld k).trans htold.reported.symm), htold.keys]
      · have hspared := h'.spared k hkeys'
        exact ⟨hspared.reported.trans htold.reported, hspared.keys.trans htold.keys⟩
    · have hspared := h.spared k hkeys
      have htold := h'.told k ((List.mem_append.mp hk).resolve_left hkeys)
      refine ⟨htold.reported.trans (hheld k), ?_⟩
      rw [htold.keys, hheld, hspared.reported, hspared.keys]
  · intro k hk
    rw [List.mem_append, not_or] at hk
    have hspared := h.spared k hk.1
    have hspared' := h'.spared k hk.2
    exact ⟨hspared'.reported.trans hspared.reported, hspared'.keys.trans hspared.keys⟩

theorem tells_reportAll (now : Float) (inputs : Inputs) (m : Machine) :
    Tells now (List.finRange 16) inputs m (inputs.reportAll m now) := by
  rw [reportAll]
  generalize List.finRange 16 = keys
  induction keys generalizing inputs m with
  | nil => exact ⟨rfl, rfl, List.forall_mem_nil _, fun _ _ ↦ ⟨rfl, rfl⟩⟩
  | cons key keys ih => exact (tells_report now inputs m key).append (ih _ _)

end Inputs

/-! ## Histories -/

/-- The keys that the inputs take to be told. -/
def told : List Happening → Key → Bool
  | [] | .asked :: _ => fun _ ↦ false
  | .told held :: _ => held
  | .reset :: history => told history

/-- The keys that are lost: a reset has taken them from the machine when the inputs took them to be
told, and they have been held at each telling since. -/
def lost : List Happening → Key → Bool
  | [] | .asked :: _ => fun _ ↦ false
  | .told held :: history => fun k ↦ held k && lost history k
  | .reset :: history => told history

theorem told_of_lost (h : lost history k = true) : told history k = true := by
  cases history with
  | nil => cases h
  | cons happening history =>
    cases happening with
    | asked => cases h
    | told held => exact (Bool.and_eq_true_iff.mp h).1
    | reset => exact h

/-- If no reset comes right after a telling, no reset comes when the inputs take keys to be
told. -/
theorem told_eq_false
    (h : ∀ later held earlier, .reset :: history ≠ later ++ .reset :: .told held :: earlier) :
    told history k = false := by
  induction history with
  | nil => rfl
  | cons happening history ih =>
    cases happening with
    | asked => rfl
    | told held => exact absurd rfl (h [] held history)
    | reset =>
      apply ih
      intro later held earlier heq
      exact h (.reset :: later) held earlier (congrArg (.reset :: ·) heq)

/-- If no reset comes right after a telling, no key is lost. -/
theorem lost_eq_false
    (h : ∀ later held earlier, history ≠ later ++ .reset :: .told held :: earlier) :
    lost history k = false := by
  induction history with
  | nil => rfl
  | cons happening history ih =>
    cases happening with
    | asked => rfl
    | told held =>
      have hlost : lost history k = false := by
        apply ih
        intro later held' earlier heq
        exact h (.told held :: later) held' earlier (congrArg (.told held :: ·) heq)
      simp only [lost, hlost, Bool.and_false]
    | reset => exact told_eq_false h

namespace Console

variable {c : Console}

/-! ## Polls -/

/-- How a poll comes to its end: what it leaves, and its answer. -/
inductive Polled (c : Console) (now : Float) : Console → Except Fault Bool → Prop
  /-- It ends the program, or meets a fault. -/
  | ended {inputs : Inputs} {m : Machine} {drained : Inputs.Drained} {answer : Except Fault Bool}
      (drains : Inputs.Drains false c.inputs c.machine (inputs, m, drained))
      (hanswer : answer ≠ .ok false) : Polled c now ⟨inputs, m, c.history⟩ answer
  /-- It asks for a reset. -/
  | asked {inputs : Inputs} {m : Machine}
      (drains : Inputs.Drains false c.inputs c.machine (inputs, m, .all true)) :
      Polled c now ⟨{ inputs with reported := Vector.replicate 16 false }, m,
        .asked :: c.history⟩ (.ok false)
  /-- It tells the machine of the keys. -/
  | told {inputs inputs' : Inputs} {m m' : Machine}
      (drains : Inputs.Drains false c.inputs c.machine (inputs, m, .all false))
      (tells : Inputs.Tells now (List.finRange 16) inputs m (inputs', m')) :
      Polled c now ⟨inputs', m', .told (inputs.isHeld now) :: c.history⟩ (.ok false)

/-- Every poll comes to its end in one of these ways. -/
theorem polled_poll (c : Console) (now : Float) :
    Polled c now (c.poll now) (c.inputs.poll c.machine now).2.2 := by
  have hd := Inputs.drains_drain now false c.inputs.queue c.inputs c.machine
  rw [Console.poll, Inputs.poll, happening?]
  cases hr : Inputs.drain now false c.inputs.queue c.inputs c.machine with
  | mk inputs rest =>
    obtain ⟨m, drained⟩ := rest
    rw [hr] at hd
    match drained with
    | .quit => exact .ended hd (by simp)
    | .failed f => exact .ended hd (by simp)
    | .all true => exact .asked hd
    | .all false => exact .told hd (Inputs.tells_reportAll now inputs m)

/-! ## What holds at every terminal -/

/-- What the inputs and the machine know of the keys. -/
structure Known (c : Console) : Prop where
  /-- The inputs know what they have told. -/
  reported : ∀ k, c.inputs.reported.get k = told c.history k
  /-- Unless a reset is to be made, the machine knows what it was told, apart from lost keys. -/
  keys : c.machine.resetRequested = false →
    ∀ k, c.machine.keys.get k = (told c.history k && !lost c.history k)

theorem Known.put (h : c.Known) (code : Int) : (c.move (.put code)).Known := by
  have hput : (c.inputs.put [code]).1.reported = c.inputs.reported := by
    rw [Inputs.put]
    split <;> rfl
  refine ⟨fun k ↦ ?_, h.keys⟩
  rw [move, hput]
  exact h.reported k

theorem Known.reset (h : c.Known) : (c.move .reset).Known := by
  rw [move]
  split
  next hreset =>
    refine ⟨h.reported, fun _ k ↦ ?_⟩
    -- All keys are taken from the machine, and all that were told become lost.
    rw [Run.resetIfRequested, if_pos hreset]
    change (Vector.replicate 16 false)[k.val] = (told c.history k && !told c.history k)
    rw [Bool.and_not_self]
    exact Vector.getElem_replicate _
  next => exact h

theorem Known.drains (h : c.Known) {inputs : Inputs} {m : Machine} {drained : Inputs.Drained}
    (hd : Inputs.Drains false c.inputs c.machine (inputs, m, drained)) :
    Known ⟨inputs, m, c.history⟩ := by
  refine ⟨fun k ↦ ?_, fun hreset k ↦ ?_⟩
  · rw [hd.reported]
    exact h.reported k
  · rw [hd.keys]
    apply h.keys
    rw [← Bool.not_eq_true] at hreset ⊢
    exact fun hbefore ↦ hreset (hd.kept hbefore)

/-- After a poll, the inputs know what they have told, and the machine knows it apart from lost
keys. -/
theorem Known.poll (h : c.Known) (now : Float) : (c.poll now).Known := by
  have hpoll := c.polled_poll now
  generalize c.poll now = c', (c.inputs.poll c.machine now).2.2 = answer at hpoll ⊢
  cases hpoll with
  | ended hd => exact h.drains hd
  | asked hd =>
    -- The inputs have forgotten what they told, and a reset is to be made.
    have hasked := (hd.asked rfl).resolve_left Bool.noConfusion
    refine ⟨fun k ↦ Vector.getElem_replicate k.isLt, fun hreset ↦ ?_⟩
    exact absurd (hasked.symm.trans hreset) Bool.noConfusion
  | @told inputs inputs' m m' hd ht =>
    have htold (k : Key) := ht.told k (List.mem_finRange k)
    refine ⟨fun k ↦ (htold k).reported, fun hreset k ↦ ?_⟩
    have hbefore := (h.drains hd).keys (ht.resetRequested.symm.trans hreset) k
    have hreported := (h.drains hd).reported k
    -- A lost key was told, so the machine is not told of it again as long as it is held.
    have hlost := @told_of_lost c.history k
    rw [(htold k).keys, hreported, hbefore]
    change _ = (inputs.isHeld now k && !(inputs.isHeld now k && lost c.history k))
    revert hlost
    cases lost c.history k <;> cases Terminal.told c.history k <;>
      cases inputs.isHeld now k <;> simp

theorem Known.move (h : c.Known) (m : Move) : (c.move m).Known := by
  cases m with
  | put code => exact h.put code
  | poll now => exact h.poll now
  | reset => exact h.reset

theorem known_start {random : RandomSource} {speed : Int} {observed : Bool} {m : Machine}
    (hm : Machine.powerOn random speed observed = .ok m) (keymap : Keymap) :
    (start keymap m).Known := by
  obtain ⟨interval, -, hm⟩ := exists_of_bind_ok hm
  cases hm
  exact ⟨fun k ↦ Vector.getElem_replicate k.isLt, fun _ k ↦ Vector.getElem_replicate k.isLt⟩

/-- A poll that does not end the program, and after which no reset is to be made, is a telling. -/
theorem told_poll {now : Float} (hanswer : (c.inputs.poll c.machine now).2.2 = .ok false)
    (hreset : (c.poll now).machine.resetRequested = false) :
    told (c.poll now).history = (c.poll now).inputs.isHeld now := by
  have hpoll := c.polled_poll now
  generalize c.poll now = c' at hpoll hreset ⊢
  rw [hanswer] at hpoll
  cases hpoll with
  | ended hd hanswer => exact absurd rfl hanswer
  | asked hd =>
    have hasked := (hd.asked rfl).resolve_left Bool.noConfusion
    exact absurd (hasked.symm.trans hreset) Bool.noConfusion
  | @told inputs inputs' m m' hd ht =>
    funext k
    change inputs.isHeld now k = inputs'.isHeld now k
    rw [Inputs.isHeld, Inputs.isHeld, ht.timers]

/-- A poll that does not end the program, and after which no reset is to be made, leaves exactly
those keys down that are held and not lost. -/
theorem Known.keys_poll (h : c.Known) {now : Float}
    (hanswer : (c.inputs.poll c.machine now).2.2 = .ok false)
    (hreset : (c.poll now).machine.resetRequested = false) (k : Key) :
    (c.poll now).machine.keys.get k =
      ((c.poll now).inputs.isHeld now k && !lost (c.poll now).history k) := by
  rw [← told_poll hanswer hreset]
  exact (h.poll now).keys hreset k

/-- If each reset is made before the next poll tells of keys, the machine knows of exactly the held
keys. -/
theorem Known.keys_poll_of_in_time (h : c.Known) {now : Float}
    (hanswer : (c.inputs.poll c.machine now).2.2 = .ok false)
    (hreset : (c.poll now).machine.resetRequested = false)
    (htime : ∀ later held earlier,
      (c.poll now).history ≠ later ++ .reset :: .told held :: earlier) (k : Key) :
    (c.poll now).machine.keys.get k = (c.poll now).inputs.isHeld now k := by
  rw [h.keys_poll hanswer hreset, lost_eq_false htime, Bool.not_false, Bool.and_true]

/-- A poll that does not end the program, and after which no reset is to be made, leaves exactly
those keys down that are held and not lost.  So the machine knows of exactly the held keys if and
only if no key is lost. -/
theorem held_keys_known_iff {random : RandomSource} {speed : Int} {observed : Bool} {m : Machine}
    (hm : Machine.powerOn random speed observed = .ok m) (keymap : Keymap) (moves : List Move)
    (now : Float) :
    let c := (start keymap m).after moves
    (c.inputs.poll c.machine now).2.2 = .ok false →
    (c.poll now).machine.resetRequested = false →
    (∀ k, (c.poll now).machine.keys.get k =
      ((c.poll now).inputs.isHeld now k && !lost (c.poll now).history k)) ∧
    ((∀ k, (c.poll now).machine.keys.get k = (c.poll now).inputs.isHeld now k) ↔
      ∀ k, lost (c.poll now).history k = false) := by
  intro c hanswer hreset
  have hc : c.Known := after_induction (fun _ m h ↦ h.move m) (known_start hm keymap) moves
  have hkeys := hc.keys_poll hanswer hreset
  refine ⟨hkeys, ?_, ?_⟩
  · intro h k
    cases hlost : lost (c.poll now).history k with
    | false => rfl
    | true =>
      -- A lost key is held, but it is not down.
      have hheld : (c.poll now).inputs.isHeld now k = true :=
        told_poll hanswer hreset ▸ told_of_lost hlost
      rw [← h k, hkeys k, hlost, Bool.not_true, Bool.and_false] at hheld
      cases hheld
  · intro h k
    rw [hkeys k, h k, Bool.not_false, Bool.and_true]

/-- A terminal where a key has been typed and told and a reset has been asked for, which the machine
has made before the next poll. -/
def inTime : Console :=
  (start ⟨[]⟩ { random := .ofList [7], clockSpeed := 0 }).after
    [.put 5, .poll 1.0, .put Control.reset.code, .poll 1.01, .reset]

/-- At the next poll, the machine knows of key five again. -/
theorem held_keys_known_iff_inTime :
    (inTime.inputs.poll inTime.machine 1.02).2.2 = .ok false ∧
    (inTime.poll 1.02).machine.resetRequested = false ∧
    (inTime.poll 1.02).inputs.isHeld 1.02 5 = true ∧
    ∀ k, (inTime.poll 1.02).machine.keys.get k = (inTime.poll 1.02).inputs.isHeld 1.02 k := by
  have hanswer : (inTime.inputs.poll inTime.machine 1.02).2.2 = .ok false := by rfl
  have hreset : (inTime.poll 1.02).machine.resetRequested = false := by decide +kernel
  have hheld : (inTime.poll 1.02).inputs.isHeld 1.02 5 = true := by decide +kernel
  have hlost : ∀ k, lost (inTime.poll 1.02).history k = false := by decide +kernel
  have hm : Machine.powerOn (.ofList [7]) 0 true = .ok { random := .ofList [7], clockSpeed := 0 } :=
    rfl
  exact ⟨hanswer, hreset, hheld, (held_keys_known_iff hm ⟨[]⟩ _ 1.02 hanswer hreset).2.mpr hlost⟩

/-- The same terminal, but with another poll before the reset. -/
def overtaken : Console :=
  (start ⟨[]⟩ { random := .ofList [7], clockSpeed := 0 }).after
    [.put 5, .poll 1.0, .put Control.reset.code, .poll 1.01, .poll 1.02, .reset]

/-- At the next poll, key five counts as held, but the machine does not know of it. -/
theorem held_key_lost_overtaken :
    (overtaken.inputs.poll overtaken.machine 1.03).2.2 = .ok false ∧
    (overtaken.poll 1.03).machine.resetRequested = false ∧
    (overtaken.poll 1.03).inputs.isHeld 1.03 5 = true ∧
    (overtaken.poll 1.03).machine.keys.get 5 = false :=
  ⟨by rfl, by decide +kernel, by decide +kernel, by decide +kernel⟩

end Console

end Terminal

end SuperChip
