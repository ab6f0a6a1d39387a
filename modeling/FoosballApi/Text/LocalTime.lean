import Mathlib.Order.Basic

/-!
# Local time

The clock of a process in its time zone, as the methods of `Date` read and set it. A zone says how
far local time is ahead of UTC at every instant, and with which offset a local time is converted
back. Where the clock is put forward or back, a local time is skipped or shown twice; `Date` then
takes the offset from before the change. Which offsets a zone has is left open, but they are shorter
than a day.
-/

namespace FoosballApi.Text

/-- The milliseconds of a day. -/
def msPerDay : Int := 86400000

/-- The zone of the process. -/
class TimeZone where
  /-- Local time less UTC at an instant, in milliseconds. -/
  offset : Int → Int
  /-- The offset with which a local time is converted. -/
  localOffset : Int → Int
  offset_bounds : ∀ instant, -msPerDay < offset instant ∧ offset instant < msPerDay
  localOffset_eq : ∀ clock, ∃ instant, localOffset clock = offset instant
  /-- A local time that the clock shows is converted to an instant at which it shows it. -/
  localOffset_shown : ∀ instant clock, clock = instant + offset instant →
    clock - localOffset clock + offset (clock - localOffset clock) = clock

open TimeZone

section

variable [TimeZone]

/-- What the clock shows at an instant. -/
def localTime (instant : Int) : Int := instant + offset instant

/-- The instant that a local time stands for. -/
def utcTime (clock : Int) : Int := clock - localOffset clock

/-- `d.setDate(d.getDate() - days)`: the local date goes back, the local time of the day stays. -/
def daysBefore (days : Nat) (instant : Int) : Int :=
  -- `MakeDate` counts whole days, and a day is `msPerDay` of local time.
  utcTime (localTime instant - days * msPerDay)

theorem localTime_utcTime {clock instant : Int} (hshown : localTime instant = clock) :
    localTime (utcTime clock) = clock := localOffset_shown instant clock hshown.symm

/-- The clock shows the same time so many dates before, if it shows that time at all. -/
theorem localTime_daysBefore {days : Nat} {instant earlier : Int}
    (hshown : localTime earlier = localTime instant - days * msPerDay) :
    localTime (daysBefore days instant) = localTime instant - days * msPerDay :=
  localTime_utcTime hshown

/-- Two days more are earlier, however the clock was changed in between. -/
theorem daysBefore_le {days fewer : Nat} (hdays : fewer + 2 ≤ days) (instant : Int) :
    daysBefore days instant ≤ daysBefore fewer instant := by
  obtain ⟨early, hearly⟩ := localOffset_eq (localTime instant - days * msPerDay)
  obtain ⟨late, hlate⟩ := localOffset_eq (localTime instant - fewer * msPerDay)
  have hbounds := offset_bounds early
  have hbounds' := offset_bounds late
  unfold daysBefore utcTime
  rw [hearly, hlate]
  simp only [msPerDay] at hbounds hbounds' ⊢
  omega

end

/-! ## A zone with one change -/

section

variable {change before after : Int}

/-- The offset at an instant of a clock that is changed once. -/
def offsetOnce (change before after instant : Int) : Int :=
  if instant < change then before else after

/-- The offset of a local time: up to the end of what is skipped or shown twice the one before. -/
def localOffsetOnce (change before after clock : Int) : Int :=
  if clock < change + max before after then before else after

theorem offsetOnce_bounds (hbefore : -msPerDay < before ∧ before < msPerDay)
    (hafter : -msPerDay < after ∧ after < msPerDay) (instant : Int) :
    -msPerDay < offsetOnce change before after instant ∧
      offsetOnce change before after instant < msPerDay := by
  unfold offsetOnce
  split
  · exact hbefore
  · exact hafter

theorem localOffsetOnce_eq (change before after clock : Int) :
    ∃ instant, localOffsetOnce change before after clock =
      offsetOnce change before after instant := by
  unfold localOffsetOnce offsetOnce
  split
  · exact ⟨change - 1, (if_pos (by omega)).symm⟩
  · exact ⟨change, (if_neg (by omega)).symm⟩

theorem localOffsetOnce_shown (change before after instant clock : Int)
    (hclock : clock = instant + offsetOnce change before after instant) :
    clock - localOffsetOnce change before after clock +
      offsetOnce change before after (clock - localOffsetOnce change before after clock) =
        clock := by
  simp only [offsetOnce, localOffsetOnce] at hclock ⊢
  omega

/-- A clock that is `before` ahead of UTC until an instant, and `after` from then on. -/
@[reducible] def TimeZone.changedAt (change before after : Int)
    (hbefore : -msPerDay < before ∧ before < msPerDay)
    (hafter : -msPerDay < after ∧ after < msPerDay) : TimeZone where
  offset := offsetOnce change before after
  localOffset := localOffsetOnce change before after
  offset_bounds := offsetOnce_bounds hbefore hafter
  localOffset_eq := localOffsetOnce_eq change before after
  localOffset_shown := localOffsetOnce_shown change before after

theorem hours_bounds (hours : Fin 24) :
    -msPerDay < hours * 3600000 ∧ (hours * 3600000 : Int) < msPerDay := by
  simp only [msPerDay]
  omega

end

namespace Utc

/-- A process in UTC. -/
scoped instance zone : TimeZone :=
  .changedAt 0 ((0 : Fin 24) * 3600000) ((0 : Fin 24) * 3600000) (hours_bounds 0) (hours_bounds 0)

end Utc

namespace SummerTime

/-- A process one hour east of Greenwich, with summer time from the 31st of March 2024 on. -/
scoped instance zone : TimeZone :=
  .changedAt 1711846800000 ((1 : Fin 24) * 3600000) ((2 : Fin 24) * 3600000) (hours_bounds 1)
    (hours_bounds 2)

/-- Noon in UTC on the 10th of April is two o'clock. Thirty days before, two o'clock was an hour
after noon in UTC. -/
example : daysBefore 30 1712750400000 = 1710162000000 := by decide

end SummerTime

end FoosballApi.Text
