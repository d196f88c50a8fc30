import SuperChip.Machine.Thread
import SuperChip.Proofs.Timing

/-!
# No request for a reset is lost, and none is made up

A machine keeps one flag for all requests, and the thread of a run tests the flag, forgets it and
makes the reset one after the other, while its host may ask again at any moment.  The flag is
forgotten before the reset begins.  So a request that still finds the flag set is answered by the
reset to come, and one that arrives later sets the flag anew, and is found by the next test.

Therefore, whenever an instruction is started, each request from before the test of its turn has
been followed by a reset that began after the request.  And since each reset uses up a flag that was
set, there are never more resets than requests.

A reset that has come to its end is a whole one.  All of its parts were done since it began, each
once and in their order, whatever the host did in between.
-/

namespace SuperChip

namespace Moment

/-! ## Histories -/

/-- In a history, each `x` is followed by a `y`. -/
def Followed (x y : Moment) (history : List Moment) : Prop :=
  ∀ later earlier, history = later ++ x :: earlier → y ∈ later

/-- The last test splits a history in what has happened since and what had happened before.  No
instruction has been started since. -/
structure LastTest (history since before : List Moment) : Prop where
  /-- The history is split at a test. -/
  eq : history = since ++ .tested :: before
  /-- There has been no other test since. -/
  tested : .tested ∉ since
  /-- No instruction has been started since. -/
  executed : .executed ∉ since

/-- Each request from before a test has been followed by a reset that began after the request, be it
before the test or since. -/
def Answered (since before : List Moment) : Prop :=
  ∀ between older, before = between ++ .requested :: older → .began ∈ since ++ between

/-- A history after which an instruction may be started: each reset that was begun has come to its
end, and since the instruction before there has been a test up to which all requests are
answered. -/
def Settled (history : List Moment) : Prop :=
  Followed .began .finished history ∧
    ∃ since before, LastTest history since before ∧ Answered since before

/-- The part of a reset that is done. -/
def part? : Moment → Option ResetPart
  | .performed part => some part
  | _ => none

/-- A reset has begun, and all of its parts but the last ones, `rest`, have been done since, each
once and in their order.  No other reset has begun since. -/
def Underway (rest : List ResetPart) (history : List Moment) : Prop :=
  ∃ since before, history = since ++ .began :: before ∧ .began ∉ since ∧
    since.reverse.filterMap part? ++ rest = ResetPart.all

/-- In a history, `P` held whenever there was an `x`. -/
def Before (x : Moment) (P : List Moment → Prop) (history : List Moment) : Prop :=
  ∀ later earlier, history = later ++ x :: earlier → P earlier

variable {x y z : Moment} {history since before : List Moment} {P : List Moment → Prop}
  {part : ResetPart} {rest : List ResetPart}

/-- A split of a history is a split of what it was before its newest moment, unless it is at that
moment. -/
theorem exists_of_cons_eq_append (hz : z ≠ x) {later earlier : List Moment}
    (h : z :: history = later ++ x :: earlier) :
    ∃ later', later = z :: later' ∧ history = later' ++ x :: earlier := by
  rcases List.cons_eq_append_iff.mp h with ⟨rfl, hx⟩ | h
  · cases hx
    exact absurd rfl hz
  · exact h

theorem followed_nil : Followed x y [] := by
  intro later earlier hsplit
  simp at hsplit

theorem Followed.cons (h : Followed x y history) (hz : z ≠ x) : Followed x y (z :: history) := by
  intro later earlier hsplit
  obtain ⟨later', rfl, hrest⟩ := exists_of_cons_eq_append hz hsplit
  exact List.mem_cons_of_mem z (h later' earlier hrest)

/-- The newest moment follows all others. -/
theorem followed_cons_self (hy : y ≠ x) : Followed x y (y :: history) := by
  intro later earlier hsplit
  obtain ⟨later', rfl, -⟩ := exists_of_cons_eq_append hy hsplit
  exact List.mem_cons_self

theorem lastTest_cons_tested : LastTest (.tested :: history) [] history :=
  ⟨rfl, List.not_mem_nil, List.not_mem_nil⟩

theorem LastTest.cons (h : LastTest history since before) (ht : .tested ≠ z) (he : .executed ≠ z) :
    LastTest (z :: history) (z :: since) before where
  eq := congrArg (z :: ·) h.eq
  tested := List.not_mem_cons_of_ne_of_not_mem ht h.tested
  executed := List.not_mem_cons_of_ne_of_not_mem he h.executed

theorem Answered.cons (h : Answered since before) : Answered (z :: since) before :=
  fun between older hsplit ↦ List.mem_cons_of_mem z (h between older hsplit)

theorem answered_of_mem (h : .began ∈ since) : Answered since before :=
  fun _ _ _ ↦ List.mem_append_left _ h

/-- If everything has been answered before the test, nothing has to happen since. -/
theorem answered_of_followed (h : Followed .requested .began before) : Answered since before :=
  fun between older hsplit ↦ List.mem_append_right _ (h between older hsplit)

theorem before_nil : Before x P [] := by
  intro later earlier hsplit
  simp at hsplit

theorem Before.cons (h : Before x P history) (hz : z ≠ x) : Before x P (z :: history) := by
  intro later earlier hsplit
  obtain ⟨later', -, hrest⟩ := exists_of_cons_eq_append hz hsplit
  exact h later' earlier hrest

theorem Before.cons_self (h : Before x P history) (hp : P history) : Before x P (x :: history) := by
  intro later earlier hsplit
  rcases List.cons_eq_append_iff.mp hsplit with ⟨-, hx⟩ | ⟨later', -, hrest⟩
  · cases hx
    exact hp
  · exact h later' earlier hrest

/-- When a reset begins, all of its parts are yet to be done. -/
theorem underway_began : Underway ResetPart.all (.began :: history) :=
  ⟨[], history, rfl, List.not_mem_nil, rfl⟩

theorem Underway.performed (h : Underway (part :: rest) history) :
    Underway rest (.performed part :: history) := by
  obtain ⟨since, before, heq, hbegan, hparts⟩ := h
  refine ⟨.performed part :: since, before, congrArg (_ :: ·) heq,
    List.not_mem_cons_of_ne_of_not_mem Moment.noConfusion hbegan, ?_⟩
  rw [List.reverse_cons, List.filterMap_append, List.append_assoc]
  exact hparts

/-- Requests do not interrupt a reset. -/
theorem Underway.requested (h : Underway rest history) : Underway rest (.requested :: history) := by
  obtain ⟨since, before, heq, hbegan, hparts⟩ := h
  refine ⟨.requested :: since, before, congrArg (_ :: ·) heq,
    List.not_mem_cons_of_ne_of_not_mem Moment.noConfusion hbegan, ?_⟩
  rw [List.reverse_cons, List.filterMap_append, List.append_assoc]
  exact hparts

end Moment

open Moment

/-! ## What each stage tells -/

namespace Stage

variable {σ : Type} {stage : Stage σ} {asked : Bool} {history : List Moment}

/-- What a stage tells of the flag and of the history. -/
def Fits (asked : Bool) (history : List Moment) : Stage σ → Prop
  | .dropping =>
    asked = true ∧ Followed .began .finished history ∧
      ∃ since before, LastTest history since before
  | .entering =>
    Followed .began .finished history ∧ ∃ since before, LastTest history since before
  | .resetting rest =>
    Underway rest history ∧ ∃ since before, LastTest history since before ∧ Answered since before
  | .starting => Settled history
  | _ => Followed .began .finished history

/-- The number of resets for which the flag is forgotten already, and which have not begun yet. -/
def owed : Stage σ → Nat
  | .entering => 1
  | _ => 0

theorem eq_entering_of_owed_ne_zero (h : stage.owed ≠ 0) : stage = .entering := by
  cases stage with
  | entering => rfl
  | _ => exact absurd rfl h

/-- Another request changes nothing of what a stage tells. -/
theorem Fits.requested (h : stage.Fits asked history) :
    stage.Fits true (.requested :: history) := by
  have hclosed (h : Followed .began .finished history) :
      Followed .began .finished (.requested :: history) :=
    h.cons Moment.noConfusion
  have hlast {since before : List Moment} (h : LastTest history since before) :
      LastTest (.requested :: history) (.requested :: since) before :=
    h.cons Moment.noConfusion Moment.noConfusion
  cases stage with
  | dropping =>
    obtain ⟨-, hc, since, before, hl⟩ := h
    exact ⟨rfl, hclosed hc, _, before, hlast hl⟩
  | entering =>
    obtain ⟨hc, since, before, hl⟩ := h
    exact ⟨hclosed hc, _, before, hlast hl⟩
  | resetting rest =>
    obtain ⟨hu, since, before, hl, ha⟩ := h
    exact ⟨hu.requested, _, before, hlast hl, ha.cons⟩
  | starting =>
    obtain ⟨hc, since, before, hl, ha⟩ := h
    exact ⟨hclosed hc, _, before, hlast hl, ha.cons⟩
  | asking | testing | serving | leaving | ended => exact hclosed h

end Stage

/-! ## What holds of every run -/

/-- Between two instructions, a run does not touch the flag. -/
theorem Run.resetRequested_pace_showCounters {σ : Type} {h : Host σ} (started : Float)
    (r : Run σ) :
    (pace h started r.showCounters).machine.resetRequested = r.machine.resetRequested := by
  obtain ⟨ops, ticks, hm⟩ := r.machine_showCounters
  rw [machine_pace, hm]

namespace Thread

open Machine

variable {σ : Type} {h : Host σ} {t : Thread σ} {asked : Bool} {stage stage' : Stage σ}
  {history : List Moment}

/-- What the flag, the stage and the history have to do with one another. -/
structure Faithful (asked : Bool) (stage : Stage σ) (history : List Moment) : Prop where
  /-- Each instruction was started when everything was settled. -/
  prompt : Before .executed Settled history
  /-- Each reset came to its end when all of its parts were done. -/
  whole : Before .finished (Underway []) history
  /-- If a request has not been answered, the flag is set, or a reset is about to begin. -/
  heard : asked = false → stage.owed = 0 → Followed .requested .began history
  /-- The resets that have begun or are to begin are not more than the requests. -/
  count_le : history.count .began + asked.toNat + stage.owed ≤ history.count .requested
  /-- The stage tells what holds at the moment. -/
  fits : stage.Fits asked history

/-- The flag, the stage and the history of a thread belong together. -/
def IsFaithful (t : Thread σ) : Prop := Faithful t.run.machine.resetRequested t.stage t.history

/-- Stages that tell only that all resets have come to their end follow one another freely. -/
theorem Faithful.next (ht : Faithful asked stage history) (howed : stage.owed = 0)
    (howed' : stage'.owed = 0) (hfits : stage'.Fits asked history) :
    Faithful asked stage' history where
  prompt := ht.prompt
  whole := ht.whole
  heard ha _ := ht.heard ha howed
  count_le := howed'.trans howed.symm ▸ ht.count_le
  fits := hfits

theorem Faithful.test (ht : Faithful asked (.testing : Stage σ) history) :
    Faithful asked (if asked then .dropping else .starting : Stage σ) (.tested :: history) where
  prompt := ht.prompt.cons Moment.noConfusion
  whole := ht.whole.cons Moment.noConfusion
  heard ha _ := (ht.heard ha rfl).cons Moment.noConfusion
  count_le := by
    have := ht.count_le
    cases asked <;> simpa [Stage.owed] using this
  fits := by
    have hclosed : Followed .began .finished (.tested :: history) :=
      Followed.cons ht.fits Moment.noConfusion
    cases asked with
    | false =>
      -- The flag is not set, so nothing has been asked for that is not answered yet.
      exact ⟨hclosed, [], history, lastTest_cons_tested, answered_of_followed (ht.heard rfl rfl)⟩
    | true => exact ⟨rfl, hclosed, [], history, lastTest_cons_tested⟩

theorem Faithful.drop (ht : Faithful asked (.dropping : Stage σ) history) :
    Faithful false (.entering : Stage σ) history where
  prompt := ht.prompt
  whole := ht.whole
  heard _ howed := by cases howed
  count_le := by
    -- The reset that is owed from now on takes the place of the flag.
    have := ht.count_le
    rw [ht.fits.1] at this
    exact this
  fits := ht.fits.2

/-- A reset begins. -/
theorem Faithful.begin (ht : Faithful asked (.entering : Stage σ) history) :
    Faithful asked (.resetting ResetPart.all : Stage σ) (.began :: history) where
  prompt := ht.prompt.cons Moment.noConfusion
  whole := ht.whole.cons Moment.noConfusion
  heard _ _ := followed_cons_self Moment.noConfusion
  count_le := by
    have := ht.count_le
    simp only [Stage.owed, List.count_cons_self] at this ⊢
    rw [List.count_cons_of_ne Moment.noConfusion]
    omega
  fits := by
    -- Whatever was asked for before the test, this reset begins after it.
    obtain ⟨-, since, before, hl⟩ := ht.fits
    exact ⟨underway_began, _, before, hl.cons Moment.noConfusion Moment.noConfusion,
      answered_of_mem List.mem_cons_self⟩

/-- A part of a reset is done. -/
theorem Faithful.perform {part : ResetPart} {rest : List ResetPart}
    (ht : Faithful asked (.resetting (part :: rest) : Stage σ) history) :
    Faithful asked (.resetting rest : Stage σ) (.performed part :: history) where
  prompt := ht.prompt.cons Moment.noConfusion
  whole := ht.whole.cons Moment.noConfusion
  heard ha _ := (ht.heard ha rfl).cons Moment.noConfusion
  count_le := by
    rw [List.count_cons_of_ne Moment.noConfusion, List.count_cons_of_ne Moment.noConfusion]
    exact ht.count_le
  fits := by
    obtain ⟨hu, since, before, hl, ha⟩ := ht.fits
    exact ⟨hu.performed, _, before, hl.cons Moment.noConfusion Moment.noConfusion, ha.cons⟩

/-- A reset comes to its end. -/
theorem Faithful.finish (ht : Faithful asked (.resetting [] : Stage σ) history) :
    Faithful asked (.starting : Stage σ) (.finished :: history) where
  prompt := ht.prompt.cons Moment.noConfusion
  whole := ht.whole.cons_self ht.fits.1
  heard ha _ := (ht.heard ha rfl).cons Moment.noConfusion
  count_le := by
    rw [List.count_cons_of_ne Moment.noConfusion, List.count_cons_of_ne Moment.noConfusion]
    exact ht.count_le
  fits := by
    obtain ⟨-, since, before, hl, ha⟩ := ht.fits
    exact ⟨followed_cons_self Moment.noConfusion, _, before,
      hl.cons Moment.noConfusion Moment.noConfusion, ha.cons⟩

theorem Faithful.execute (ht : Faithful asked (.starting : Stage σ) history)
    (howed : stage'.owed = 0)
    (hfits : Followed .began .finished (.executed :: history) →
      stage'.Fits asked (.executed :: history)) :
    Faithful asked stage' (.executed :: history) where
  prompt := ht.prompt.cons_self ht.fits
  whole := ht.whole.cons Moment.noConfusion
  heard ha _ := (ht.heard ha rfl).cons Moment.noConfusion
  count_le := by
    rw [List.count_cons_of_ne Moment.noConfusion, List.count_cons_of_ne Moment.noConfusion, howed]
    exact ht.count_le
  fits := hfits (Followed.cons ht.fits.1 Moment.noConfusion)

theorem Faithful.request (ht : Faithful asked stage history) :
    Faithful true stage (.requested :: history) where
  prompt := ht.prompt.cons Moment.noConfusion
  whole := ht.whole.cons Moment.noConfusion
  heard ha := by cases ha
  count_le := by
    have := ht.count_le
    rw [List.count_cons_of_ne Moment.noConfusion, List.count_cons_self, Bool.toNat_true]
    omega
  fits := ht.fits.requested

/-- With a passive host, the thread keeps flag, stage and history together. -/
theorem IsFaithful.act (hp : h.Passive) (ht : t.IsFaithful) : (t.act h).IsFaithful := by
  obtain ⟨r, stage, history⟩ := t
  cases stage with
  | asking =>
    rw [Thread.act]
    simp only
    split
    · exact ht.next rfl rfl ht.fits
    · -- A passive host leaves the flag as it is, whatever it answers.
      have hhost := hp r.machine r.host
      cases hc : h.cancelled r.machine r.host with
      | mk answer rest =>
        obtain ⟨m, s⟩ := rest
        rw [hc] at hhost
        cases hhost
        rcases answer with fault | _ | _
        all_goals exact ht.next rfl rfl ht.fits
  | testing => exact ht.test
  | dropping => exact ht.drop
  | entering => exact ht.begin
  | resetting rest =>
    cases rest with
    | nil => exact ht.finish
    | cons part rest =>
      have hnext := ht.perform
      rw [← part.resetRequested_perform] at hnext
      exact hnext
  | starting =>
    have hflag : r.machine.step.1.resetRequested = r.machine.resetRequested :=
      (enduring_resetRequested _).step rfl
    rw [Thread.act]
    simp only
    cases hs : r.machine.step with
    | mk m fault =>
      rw [hs] at hflag
      cases fault with
      | none =>
        rw [IsFaithful, hflag]
        exact ht.execute rfl id
      | some fault =>
        rw [IsFaithful, hflag]
        exact ht.execute rfl id
  | serving started =>
    rw [Thread.act]
    simp only
    split
    next hm => exact ht.next rfl rfl ht.fits
    next m ticks hm =>
      rw [IsFaithful, Run.resetRequested_pace_showCounters, resetRequested_advanceClock hm]
      exact ht.next rfl rfl ht.fits
  | leaving => exact ht.next rfl rfl ht.fits
  | ended outcome => exact ht

/-- Whatever the host does, flag, stage and history are kept together. -/
theorem IsFaithful.intervene (ht : t.IsFaithful) (i : Intervention) :
    (t.intervene i).IsFaithful := by
  cases i with
  | requestReset => exact ht.request
  | setKey key down =>
    refine attempt_induction
      (P := fun m ↦ Faithful m.resetRequested t.stage t.history) ht ?_
    intro m hm
    obtain ⟨keys, rfl⟩ := exists_of_setKey hm
    exact ht
  | setClockSpeed speed =>
    obtain ⟨interval, hm⟩ := t.run.machine.exists_setClockSpeed_eq speed
    rw [Thread.intervene, hm]
    exact ht

/-- At the start, nothing but a request can have happened. -/
theorem before_start {x : Moment} {P : List Moment → Prop} (hx : .requested ≠ x) (m : Machine)
    (s : σ) : Before x P (start h m s).history := by
  rw [start]
  split
  · exact before_nil.cons hx
  · exact before_nil

theorem isFaithful_start (m : Machine) (s : σ) : (start h m s).IsFaithful where
  prompt := before_start Moment.noConfusion m s
  whole := before_start Moment.noConfusion m s
  heard ha _ := by
    have hflag : m.resetRequested = false := ha
    rw [start, hflag]
    exact followed_nil
  count_le := by
    change _ + m.resetRequested.toNat + 0 ≤ _
    rw [start]
    cases m.resetRequested <;> simp
  fits := by
    change Followed .began .finished (start h m s).history
    rw [start]
    split
    · exact followed_nil.cons Moment.noConfusion
    · exact followed_nil

theorem IsFaithful.move (hp : h.Passive) (ht : t.IsFaithful) (m : Move) :
    (t.move h m).IsFaithful := by
  cases m with
  | act => exact ht.act hp
  | intervene i => exact ht.intervene i

/-- No request for a reset is lost and none is made up, wherever it comes in between the actions of
the thread.

Whenever an instruction is started, everything is settled: since the instruction before there has
been a test, each request from before that test has been followed by a reset that began after the
request, and all resets have come to their end.  Whenever a reset comes to its end, all of its parts
have been done since it began, in their order.  There have never begun more resets than requests
have been made.  And a request that no reset has followed so far is kept in mind: the flag is set,
or the thread is about to begin a reset. -/
theorem no_request_lost (hp : h.Passive) (m : Machine) (s : σ) (moves : List Move) :
    let t := (start h m s).after h moves
    (∀ later earlier, t.history = later ++ .executed :: earlier → Settled earlier) ∧
    t.history.count .began ≤ t.history.count .requested ∧
    (∀ later earlier, t.history = later ++ .requested :: earlier → .began ∉ later →
      t.run.machine.resetRequested = true ∨ t.stage = .entering) ∧
    ∀ later earlier, t.history = later ++ .finished :: earlier →
      ∃ since before, earlier = since ++ .began :: before ∧ .began ∉ since ∧
        since.reverse.filterMap part? = ResetPart.all := by
  intro t
  have ht : t.IsFaithful :=
    after_induction (P := IsFaithful) h (fun _ m ht ↦ ht.move hp m) (isFaithful_start m s) moves
  refine ⟨ht.prompt, ?_, ?_, ?_⟩
  · have := ht.count_le
    omega
  · intro later earlier hsplit hbegan
    cases hasked : t.run.machine.resetRequested with
    | true => exact .inl rfl
    | false =>
      by_cases howed : t.stage.owed = 0
      · exact absurd (ht.heard hasked howed later earlier hsplit) hbegan
      · exact .inr (Stage.eq_entering_of_owed_ne_zero howed)
  · intro later earlier hsplit
    obtain ⟨since, before, heq, hbegan, hparts⟩ := ht.whole later earlier hsplit
    rw [List.append_nil] at hparts
    exact ⟨since, before, heq, hbegan, hparts⟩

/-- A machine that has been asked for a reset is asked for another one while the first one is being
made.  After that nobody intervenes until two instructions have been started. -/
def askedTwice : List Move :=
  [.act, .act, .act, .act, .act, .intervene .requestReset] ++ List.replicate 26 .act

/-- The history of the first reset and of the instruction after it, with the second request between
two parts. -/
def askedWhileResetting : List Moment :=
  .executed :: .finished :: (ResetPart.all.tail.map .performed).reverse ++
    [.requested, .performed .registers, .began, .tested, .requested]

/-- The second request is answered by another reset before the second instruction. -/
theorem no_request_lost_askedTwice :
    let t := (start (clockwork 0.001) { timed with resetRequested := true } 0.0).after
      (clockwork 0.001) askedTwice
    let again := (ResetPart.all.map .performed).reverse ++ .began :: .tested :: askedWhileResetting
    t.history = .executed :: .finished :: again ∧ Settled (.finished :: again) ∧
    (∃ since before, again = since ++ .began :: before ∧ .began ∉ since ∧
      since.reverse.filterMap part? = ResetPart.all) ∧
    Settled askedWhileResetting.tail ∧
    t.history.count .began ≤ t.history.count .requested := by
  intro t again
  have hhistory : t.history = .executed :: .finished :: again := by
    decide +kernel
  obtain ⟨hprompt, hcount, -, hwhole⟩ := no_request_lost (h := clockwork 0.001) (fun _ _ ↦ rfl)
    { timed with resetRequested := true } 0.0 askedTwice
  refine ⟨hhistory, hprompt [] _ hhistory, hwhole [.executed] _ hhistory, ?_, hcount⟩
  exact hprompt (.executed :: .finished ::
    (ResetPart.all.map .performed).reverse ++ [.began, .tested]) _ hhistory

end Thread

end SuperChip
