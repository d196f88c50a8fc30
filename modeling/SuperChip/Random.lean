/-!
# Random bytes

Programs ask for random bytes.  They come from a Mersenne twister, which repeats itself for the same
seed, or from a given list, over and over.

The twister keeps 624 words of 32 bits.  When all have been handed out, `refill` makes the next 624;
`temper` scrambles a word on its way out.
-/

namespace SuperChip

/-- A Mersenne twister. -/
structure Twister where
  /-- The words of the state. -/
  words : Array UInt32
  /-- The number of words handed out since the state was last refilled. -/
  used : Nat

namespace Twister

/-- The number of words in the state. -/
def length : Nat := 624

/-- The state made from one word. -/
def ofWord (seed : UInt32) : Array UInt32 :=
  (List.range (length - 1)).foldl (fun (words : Array UInt32) k ↦
    let last : UInt32 := words.getD k 0
    words.push ((1812433253 : UInt32) * (last ^^^ (last >>> 30)) + UInt32.ofNat (k + 1))) #[seed]

/-- One round of mixing a key into the state, at the place of `k`. -/
def mixWord (words : Array UInt32) (k : Nat) (factor addend : UInt32) (subtract : Bool) :
    Array UInt32 :=
  let last := words.getD (k - 1) 0
  let mixed := words.getD k 0 ^^^ ((last ^^^ (last >>> 30)) * factor)
  words.setIfInBounds k (if subtract then mixed - addend else mixed + addend)

/-- The place after `k`.  After the last place, the last word is copied to place zero, and place one
is next. -/
def nextPlace (words : Array UInt32) (k : Nat) : Array UInt32 × Nat :=
  if k + 1 < length then (words, k + 1)
  else (words.setIfInBounds 0 (words.getD (length - 1) 0), 1)

/-- The state made from a key of one or more words. -/
def ofKey (key : Array UInt32) : Array UInt32 :=
  let start := (ofWord 19650218, 1)
  let (words, k) := (List.range (max length key.size)).foldl (fun (words, k) round ↦
    let j := round % key.size
    nextPlace (mixWord words k 1664525 (key.getD j 0 + UInt32.ofNat j) false) k) start
  let (words, _) := (List.range (length - 1)).foldl (fun (words, k) _ ↦
    nextPlace (mixWord words k 1566083941 (UInt32.ofNat k) true) k) (words, k)
  words.setIfInBounds 0 0x80000000

/-- The 32-bit words of a number, the lowest first; zero has one word. -/
def keyOfNat (n : Nat) : List UInt32 :=
  if h : n < 0x100000000 then [UInt32.ofNat n]
  else UInt32.ofNat (n % 0x100000000) :: keyOfNat (n / 0x100000000)
termination_by n
decreasing_by omega

/-- The twister for a seed, whose sign does not count. -/
def ofSeed (seed : Int) : Twister :=
  { words := ofKey (keyOfNat seed.natAbs).toArray, used := length }

/-- The next 624 words. -/
def refill (words : Array UInt32) : Array UInt32 :=
  (List.range length).foldl (fun (words : Array UInt32) k ↦
    let joined := (words.getD k 0 &&& 0x80000000) |||
      (words.getD ((k + 1) % length) 0 &&& 0x7fffffff)
    let twist : UInt32 := if joined &&& 1 = 0 then 0 else 0x9908b0df
    words.setIfInBounds k (words.getD ((k + 397) % length) 0 ^^^ (joined >>> 1) ^^^ twist)) words

/-- Scrambles a word on its way out. -/
def temper (w : UInt32) : UInt32 :=
  let w := w ^^^ (w >>> 11)
  let w := w ^^^ ((w <<< 7) &&& 0x9d2c5680)
  let w := w ^^^ ((w <<< 15) &&& 0xefc60000)
  w ^^^ (w >>> 18)

/-- The next word. -/
def next (t : Twister) : UInt32 × Twister :=
  let t := if t.used < length then t else { words := refill t.words, used := 0 }
  (temper (t.words.getD t.used 0), { t with used := t.used + 1 })

/-- The next byte: the top nine bits of the first word for which they are below 256, among at most
`tries` words. -/
def nextByte : Nat → Twister → UInt8 × Twister
  | 0, t => (0, t)
  | tries + 1, t =>
    let (w, t) := t.next
    if w >>> 23 < 256 then ((w >>> 23).toUInt8, t) else nextByte tries t

end Twister

/-- Where random bytes come from. -/
inductive RandomSource
  /-- A Mersenne twister. -/
  | twister (t : Twister)
  /-- A list of bytes, begun again whenever it has come to its end. -/
  | cycle (rest all : List UInt8)

namespace RandomSource

/-- The twister for a seed. -/
def ofSeed (seed : Int) : RandomSource := .twister (Twister.ofSeed seed)

/-- The source that goes through a list of numbers, of which the low bytes count. -/
def ofList (values : List Int) : RandomSource :=
  let bytes := values.map fun n ↦ UInt8.ofNat (n % 256).toNat
  .cycle bytes bytes

/-- The number of words that a twister tries for one byte.  The top bits of 19937 words in a row
determine a twister of this kind, so they are not all ones for much longer than that. -/
def tries : Nat := 20000

/-- The next random byte.  An empty list gives zeros. -/
def next : RandomSource → UInt8 × RandomSource
  | .twister t =>
    let (b, t) := t.nextByte tries
    (b, .twister t)
  | .cycle (b :: rest) all => (b, .cycle rest all)
  | .cycle [] (b :: rest) => (b, .cycle rest (b :: rest))
  | .cycle [] [] => (0, .cycle [] [])

end RandomSource

end SuperChip
