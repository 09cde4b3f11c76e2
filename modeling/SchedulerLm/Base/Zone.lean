import Mathlib.Data.List.Basic
import Mathlib.Tactic.Common

/-!
# Time zones

A time zone is an offset from UTC that changes at some instants, its transitions. An
instant has one reading on the wall clock of the zone (`Zone.fromUtc`). A reading has
one offset, or two around a transition: where the clock is put back, readings are
repeated, and where it is put forward, they are skipped. The fold of a reading picks
the offset (`Zone.utcoffset`): before the transition if it is not set, after it if it
is.
-/

namespace Zones

/-- A time zone: its offset before the transitions, and these in order, each with
    the offset after it. -/
structure Zone where
  initial : Int
  transitions : List (Int × Int)
  sorted : transitions.Pairwise fun a b => a.1 < b.1

/-- A reading of the wall clock of a zone, with its fold. -/
structure ZonedDatetime where
  wall : Int
  fold : Bool
  deriving DecidableEq

/-- The offset at the instant `t`, after the offset `o`. -/
def offsetFrom (t o : Int) : List (Int × Int) → Int
  | [] => o
  | (t', o') :: rest => if t' ≤ t then offsetFrom t o' rest else o

/-- Whether the instant `t` is in the repeated part after the last transition, the
    offset having been `o`. -/
def foldFrom (t o : Int) (fold : Bool) : List (Int × Int) → Bool
  | [] => fold
  | (t', o') :: rest => if t' ≤ t then foldFrom t o' (t - t' < o - o') rest else fold

/-- The offset of the reading `w`, after the offset `o`: a transition is over when
    both its readings are, or only the earlier one if the fold is set. -/
def wallOffsetFrom (fold : Bool) (w o : Int) : List (Int × Int) → Int
  | [] => o
  | (t', o') :: rest =>
    if t' + (if fold then min o o' else max o o') ≤ w then wallOffsetFrom fold w o' rest else o

namespace Zone

variable (zone : Zone)

/-- The offset at an instant. -/
def offsetAt (t : Int) : Int := offsetFrom t zone.initial zone.transitions

/-- `fromutc`. -/
def fromUtc (t : Int) : ZonedDatetime where
  wall := t + zone.offsetAt t
  fold := foldFrom t zone.initial false zone.transitions

/-- `utcoffset`. -/
def utcoffset (d : ZonedDatetime) :
    Int := wallOffsetFrom d.fold d.wall zone.initial zone.transitions

/-- The instant of a reading. -/
def instant (d : ZonedDatetime) : Int := d.wall - zone.utcoffset d

/-- UTC. -/
def utc : Zone := ⟨0, [], by decide⟩

/-- New York in the summer and the autumn of 2026: the clock is put back by an hour on
    1 November, at 6:00 UTC. -/
def newYork : Zone := ⟨-14400000000, [(1793512800000000, -18000000000)], by decide⟩

end Zone

end Zones
