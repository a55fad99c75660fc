import Stampline.Stamp.Format

/-!
# Stamps

A stamp is the text that marks a call. A stamper hands out stamps by a policy: the instant of every
call, the instant of the first one, or a text that stays the same. It has a format under every
policy, so that a text that is no format is found out even where no instant is written.
-/

namespace Stampline

/-- Where the text of a stamp comes from. -/
inductive StampPolicy where
  /-- The clock is read for every stamp. -/
  | perCall
  /-- The clock is read for the first stamp, and all others repeat it. -/
  | perRun
  /-- Every stamp is this text. -/
  | fixed (text : String)
deriving DecidableEq, Repr

instance : Inhabited StampPolicy := ⟨.perCall⟩

/-- A text that was to say how stamps are written and does not: it is no format, or an instant
cannot be written in it. -/
structure BadPattern where
  /-- The text. -/
  pattern : String
deriving DecidableEq, Repr

/-- A clock tells an instant at each reading. -/
structure Clock where
  /-- The instants of the readings, the first reading first. -/
  reading : Nat → Instant

/-- The clock that stands still. -/
def Clock.still (t : Instant) : Clock := ⟨fun _ => t⟩

/-- What hands out stamps. -/
structure Stamper where
  /-- Where their text comes from. -/
  policy : StampPolicy
  /-- How an instant is written. -/
  format : Format
  /-- The clock that it reads. -/
  clock : Clock
  /-- How often it has read the clock. -/
  readings : Nat := 0
  /-- The first stamp, where all others repeat it. -/
  first? : Option String := none

namespace Stamper

/-- A stamper that has handed out nothing yet. -/
def new (policy : StampPolicy) (pattern : String) (clock : Clock) : Except BadPattern Stamper :=
  match Format.ofPattern? pattern with
  | some format => .ok { policy, format, clock }
  | none => .error ⟨pattern⟩

/-- Reads the clock and writes the instant. -/
def read (s : Stamper) : Except BadPattern String × Stamper :=
  let result := match s.format.render? (s.clock.reading s.readings) with
    | some text => .ok text
    | none => .error ⟨s.format.pattern⟩
  (result, { s with readings := s.readings + 1 })

/-- Hands out a stamp. -/
def stamp (s : Stamper) : Except BadPattern String × Stamper :=
  match s.policy with
  | .fixed text => (.ok text, s)
  | .perCall => s.read
  | .perRun =>
    match s.first? with
    | some text => (.ok text, s)
    | none =>
      match s.read with
      | (.ok text, s) => (.ok text, { s with first? := some text })
      | (.error e, s) => (.error e, s)

/-- Hands out a number of stamps, or fails with the first that cannot be written. -/
def stamps (s : Stamper) : Nat → Except BadPattern (List String)
  | 0 => .ok []
  | n + 1 =>
    match s.stamp with
    | (.error e, _) => .error e
    | (.ok text, s) =>
      match s.stamps n with
      | .error e => .error e
      | .ok texts => .ok (text :: texts)

end Stamper

end Stampline
