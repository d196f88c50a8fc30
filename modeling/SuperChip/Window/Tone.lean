import SuperChip.Numeral.Double

/-!
# The alert tone

The alert tone of a window is a square wave, built once: samples of eight bits that change between
their extremes every half cycle.  It is played from the beginning each time.
-/

namespace SuperChip.Window

/-- The number of samples in a second. -/
def sampleRate : Int := 44100

/-- The pitch of the tone, in cycles a second. -/
def toneFrequency : Float := 800.0

/-- The length of the tone, in seconds. -/
def toneLength : Float := 0.05

/-- The volume of the tone. -/
def toneVolume : Float := 0.1

/-- The quotient of two doubles. -/
def quotient (x y : Float) : Except Fault Float :=
  if y == 0.0 then .error .divisionByZero else .ok (x / y)

/-- The sample at a place of a square wave, given the number of samples in half a cycle. -/
def sample (halfCycle : Float) (place : Nat) : Except Fault UInt8 := do
  let cycles ← quotient (Float.ofNat place) halfCycle
  let n ← Numeral.truncate cycles
  return if n % 2 = 0 then 0xFF else 0x00

/-- The next `count` samples of a square wave from a place on, put after those before them.  A fault
is met at the first place that has one. -/
def samples (halfCycle : Float) : Nat → Nat → Array UInt8 → Except Fault (Array UInt8)
  | 0, _, before => .ok before
  | count + 1, place, before =>
    match sample halfCycle place with
    | .ok b => samples halfCycle count (place + 1) (before.push b)
    | .error f => .error f

/-- A square wave of a frequency and a length, at a number of samples in a second. -/
def squareWave (frequency length : Float) (rate : Int) : Except Fault (List UInt8) := do
  let x ← Numeral.toDouble rate
  let count ← Numeral.truncate (x * length)
  let halfCycle ← quotient x (frequency * 2.0)
  let wave ← samples halfCycle count.toNat 0 #[]
  return wave.toList

/-- A command to the sound device. -/
inductive SoundCommand
  /-- Says what sound is to come: the rate, the bits of a sample, the channels and the size of the
  buffer. -/
  | prepare (rate bits channels buffer : Int)
  /-- Takes over the device. -/
  | enter
  /-- Hands over the samples of the tone. -/
  | samples (wave : List UInt8)
  /-- Sets the volume. -/
  | volume (volume : Float)
  /-- Stops the tone. -/
  | stop
  /-- Plays the tone. -/
  | play
  /-- Gives the device back. -/
  | leave

/-- The device that plays the tone. -/
structure Speaker where
  /-- The number of tones played. -/
  tones : Nat := 0
  /-- The commands so far, the newest one first. -/
  commands : List SoundCommand := []

namespace Speaker

/-- Gives commands to the device, in their order. -/
def command (s : Speaker) (commands : List SoundCommand) : Speaker :=
  { s with commands := commands.reverse ++ s.commands }

/-- Takes over the device and hands over the tone. -/
def enter (frequency length volume : Float) : Except Fault Speaker := do
  let wave ← squareWave frequency length sampleRate
  return ({} : Speaker).command
    [.prepare sampleRate 8 1 512, .enter, .samples wave, .volume volume]

/-- Plays the tone from its beginning. -/
def play (s : Speaker) : Speaker :=
  { s with tones := s.tones + 1 }.command [.stop, .play]

/-- Gives the device back. -/
def leave (s : Speaker) : Speaker := s.command [.stop, .leave]

end Speaker

end SuperChip.Window
